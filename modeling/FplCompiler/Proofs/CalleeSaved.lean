import FplCompiler.Proofs.BlockRun
import FplCompiler.Proofs.OrderlyPrograms
import FplCompiler.Proofs.SmallTrees

/-!
A function leaves the registers that its caller relies on as it found them. The registers of arguments are those that
a call may change as long as calls pass at most eight arguments; all others that a function writes are in its frame.
-/

namespace FplCompiler.Assembly

open Ir

variable {function : Function}

theorem mem_of_mapM_ok {α β ε : Type} {step : α → Except ε β} {elements : List α} {results : List β}
    (done : elements.mapM step = .ok results) {result : β} (member : result ∈ results) :
    ∃ element ∈ elements, step element = .ok result := by
  induction elements generalizing results with
  | nil =>
    obtain rfl : results = [] := by simpa [pure, Except.pure] using done.symm
    cases member
  | cons element rest ih =>
    rw [List.mapM_cons] at done
    simp only [bind, Except.bind, pure, Except.pure] at done
    split at done
    · cases done
    rename_i first firstDone
    split at done
    · cases done
    rename_i others othersDone
    obtain rfl : first :: others = results := by simpa using done
    rcases List.mem_cons.mp member with rfl | later
    · exact ⟨element, by simp, firstDone⟩
    · obtain ⟨origin, inRest, originDone⟩ := ih othersDone later
      exact ⟨origin, by simp [inRest], originDone⟩

theorem mem_finish {program finished : Program} (done : program.finish = .ok finished)
    (member : function ∈ finished.functions) : ∃ source ∈ program.functions, source.finish = .ok function := by
  simp only [Program.finish, bind, Except.bind, pure] at done
  split at done
  · cases done
  · rename_i functions functionsDone
    obtain rfl := Except.ok.inj done
    exact mem_of_mapM_ok functionsDone member

def eightArguments : Codegen.ArgumentLimit :=
  ⟨Reg.result, Nat.le_refl _, by decide⟩

theorem finished_writesHomes {analyzed : Analyzed}
    (few : ∀ expr ∈ analyzed.program.exprs, expr.shape.passed ≤ Reg.result) {finished : Program}
    (done : (Codegen.generate analyzed).program.finish = .ok finished)
    (member : function ∈ finished.functions) : function.Begins ∧ function.WritesHomes Reg.result := by
  have fits : ∀ stmt ∈ analyzed.program.statements, Codegen.Fits eightArguments False analyzed.table stmt :=
    fun stmt inProgram =>
      ⟨fun part inStmt => few part (List.mem_flatMap.mpr ⟨stmt, inProgram, inStmt⟩), fun never => never.elim⟩
  obtain ⟨source, generated, sourceDone⟩ := mem_finish done member
  obtain ⟨tidy, begins⟩ := Codegen.generate_tidy fits source generated
  exact ⟨Function.finish_begins begins sourceDone,
    Function.finish_writesHomes tidy.fit sourceDone⟩

/-- In a program whose calls pass at most eight arguments, every block saves the registers from the ninth on that it
writes, and each of its runs that reaches a return has there the registers from the ninth to the globals, the stack
pointer and the return address as they were at the entry. -/
theorem calleeSaved_kept_by_blocks {μ : Type} (around : Surroundings μ) (words : KeepsWords around) (sources : SourceMap)
    (files : List Syntax.FileTree)
    (few : ∀ expr ∈ (Analysis.analyze sources files).program.exprs, expr.shape.passed ≤ Reg.result)
    {finished : Program} (done : (Codegen.generate (Analysis.analyze sources files)).program.finish = .ok finished)
    {function : Function} (member : function ∈ finished.functions) :
    (∀ instr register, .code instr ∈ block function → instr.def? = some register → 9 ≤ register →
      register ≤ 28 ∧ ∃ frame, Frame.ofFunction? function = some frame ∧ register ∈ frame.saved) ∧
    ∀ (first last : MachineState μ) (returns : Bool), BlockRun around function first last →
      (block function)[last.place]? = some (.code (.ret returns)) →
      (∀ register, 9 ≤ register → register ≤ Reg.globals → last.read register = first.read register) ∧
        last.read Reg.stack = first.read Reg.stack ∧ last.read Reg.link = first.read Reg.link := by
  obtain ⟨begins, homes⟩ := finished_writesHomes few done member
  refine ⟨fun instr register written writes large => saved_of_written homes written writes large, ?_⟩
  intro first last returns reached returning
  have restores : ∀ register : Nat, 9 ≤ register → last.read register = first.read register :=
    fun _ large => reached.restores words begins homes returning large
  exact ⟨fun register large _ => restores register large, restores _ (by decide), restores _ (by decide)⟩

theorem words_keepsWords : KeepsWords Surroundings.words := by
  constructor
  · intro memory later address value stored
    obtain rfl := Option.some.inj stored
    simp [Surroundings.words]
  · intro memory later address other value stored apart
    obtain rfl := Option.some.inj stored
    have different : other ≠ address := by
      rintro rfl
      have far := apart.1
      rw [Int32.sub_self] at far
      exact absurd far (by decide)
    simp [Surroundings.words, different]

def printTwice : List Syntax.FileTree :=
  let print : Syntax.Stmt := .at_ (.print [.named "a"])
  Syntax.oneFile [.function 1 "f" [("a", .simple "Int")] none [print, print]]

def printTwiceBlock : List BlockOp :=
  [.reserve 8, .save 30 0, .save 9 4, .code (.move 9 1), .code (.move 1 9), .code (.call "printInt" 1 false),
    .code (.move 1 9), .code (.call "printInt" 1 false), .restore 9 4, .restore 30 0, .release 8, .code (.ret false)]

theorem leavesFrame_of_memory {μ : Type} {around : Surroundings μ} {frame? : Option Frame}
    {state next : MachineState μ} (same : next.memory = state.memory) : LeavesFrame around frame? state next := by
  intro frame _ save _
  rw [same]

theorem BlockRun.quiet {μ : Type} {around : Surroundings μ} {ops : List BlockOp} (code : block function = ops)
    {first state next : MachineState μ} (before : BlockRun around function first state) (op : BlockOp)
    (found : ops[state.place]? = some op) (taken : runOp around ops state op = some next)
    (same : ∀ instr, op = .code instr → next.memory = state.memory) : BlockRun around function first next :=
  before.step (code ▸ found) (code ▸ taken) fun instr isCode => leavesFrame_of_memory (same instr isCode)

theorem printTwiceBlock_runs (code : block function = printTwiceBlock)
    {first : MachineState (Int32 → Int32)} (entry : first.place = 0) :
    ∃ last, BlockRun Surroundings.words function first last ∧ last.place = 11 := by
  obtain ⟨_, registers, memory, trace⟩ := first
  obtain rfl := entry
  have reserved := BlockRun.quiet code (.start rfl : BlockRun Surroundings.words function ⟨0, registers, memory, trace⟩ _)
    (.reserve 8) rfl rfl nofun
  have linkSaved := reserved.quiet code (.save 30 0) rfl rfl nofun
  have saved := linkSaved.quiet code (.save 9 4) rfl rfl nofun
  have kept := saved.quiet code (.code (.move 9 1)) rfl rfl fun _ _ => rfl
  have passed := kept.quiet code (.code (.move 1 9)) rfl rfl fun _ _ => rfl
  have printed := passed.quiet code (.code (.call "printInt" 1 false)) rfl rfl fun _ _ => rfl
  have passedAgain := printed.quiet code (.code (.move 1 9)) rfl rfl fun _ _ => rfl
  have printedAgain := passedAgain.quiet code (.code (.call "printInt" 1 false)) rfl rfl fun _ _ => rfl
  have restored := printedAgain.quiet code (.restore 9 4) rfl rfl nofun
  have linkRestored := restored.quiet code (.restore 30 0) rfl rfl nofun
  exact ⟨_, linkRestored.quiet code (.release 8) rfl rfl nofun, rfl⟩

theorem eq_ok_of_toOption {α ε : Type} {result : Except ε α} {value : α} (found : result.toOption = some value) :
    result = .ok value := by
  cases result with
  | error failure => cases found
  | ok other => rw [Option.some.inj found]

theorem calleeSaved_kept_by_blocks_printTwice :
    ∃ (finished : Program) (function : Function) (first last : MachineState (Int32 → Int32)),
      (Codegen.generate (Analysis.analyze .empty printTwice)).program.finish = .ok finished ∧
      finished.functions = [function] ∧ .code (.move 9 1) ∈ block function ∧
      BlockRun Surroundings.words function first last ∧ (block function)[last.place]? = some (.code (.ret false)) ∧
      first.read 9 = 7 ∧ last.read 9 = 7 := by
  have blocks : ((Codegen.generate (Analysis.analyze .empty printTwice)).program.finish.toOption.map fun finished =>
      finished.functions.map block) = some [printTwiceBlock] := by
    decide +kernel
  have few : ∀ expr ∈ (Analysis.analyze .empty printTwice).program.exprs, expr.shape.passed ≤ Reg.result := by
    decide +kernel
  obtain ⟨finished, found, single⟩ := Option.map_eq_some_iff.mp blocks
  have done := eq_ok_of_toOption found
  obtain ⟨function, only, code⟩ := List.map_eq_singleton_iff.mp single
  let first : MachineState (Int32 → Int32) := ⟨0, fun _ => 7, fun _ => 0, []⟩
  obtain ⟨last, run, place⟩ := printTwiceBlock_runs code (rfl : first.place = 0)
  have returning : (block function)[last.place]? = some (.code (.ret false)) := by
    rw [code, place]
    rfl
  have member : function ∈ finished.functions := by simp [only]
  obtain ⟨_, kept⟩ := calleeSaved_kept_by_blocks Surroundings.words words_keepsWords .empty printTwice few done member
  refine ⟨finished, function, first, last, done, only, ?_, run, returning, rfl, ?_⟩
  · simp [code, printTwiceBlock]
  · exact (kept first last false run returning).1 9 (by decide) (by decide)

def passNine : List Syntax.FileTree :=
  let integers (names : List String) := names.map fun name => (name, Syntax.TypeExpr.simple "Int")
  let call : Syntax.Expr := .callOf "g" (List.replicate 9 (.named "a"))
  Syntax.oneFile [.function 1 "g" (integers ["a", "b", "c", "d", "e", "f", "g", "h", "i"]) none [],
    .function 2 "f" (integers ["a"]) none [.at_ (.expression call)]]

/-- The ninth argument is put into a register that the frame does not save. -/
theorem ninth_argument_overwrites_unsaved :
    (Analysis.analyze .empty passNine).diagnostics = [] ∧
      ∃ finished, (Codegen.generate (Analysis.analyze .empty passNine)).program.finish = .ok finished ∧
        ∃ function ∈ finished.functions, .code (.move 9 1) ∈ block function ∧
          ∀ offset, .save 9 offset ∉ block function := by
  have blocks : ((Codegen.generate (Analysis.analyze .empty passNine)).program.finish.toOption.map fun finished =>
      finished.functions.map block) = some [[.code (.ret false)], [.reserve 4, .save 30 0, .code (.move 2 1),
        .code (.move 3 1), .code (.move 4 1), .code (.move 5 1), .code (.move 6 1), .code (.move 7 1),
        .code (.move 8 1), .code (.move 9 1), .code (.call "/g(Int,Int,Int,Int,Int,Int,Int,Int,Int)" 9 false),
        .restore 30 0, .release 4, .code (.ret false)]] := by
    decide +kernel
  obtain ⟨finished, found, lines⟩ := Option.map_eq_some_iff.mp blocks
  refine ⟨by decide +kernel, finished, eq_ok_of_toOption found, ?_⟩
  have written := List.mem_map.mp (lines ▸ List.mem_cons_of_mem _ (List.mem_singleton_self _))
  obtain ⟨function, member, code⟩ := written
  exact ⟨function, member, by simp [code], by simp [code]⟩

end FplCompiler.Assembly

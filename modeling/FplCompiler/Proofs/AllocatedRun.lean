import FplCompiler.Proofs.Allocation
import FplCompiler.Proofs.Renaming

/-!
Code with machine registers does what the code with virtual registers does. Along a run, every register that is live
and was written holds what its machine register holds; a step keeps this because a register that is live after a write
or a call shares its machine register with nothing that changes, unless it gets the same value from a move.
-/

namespace FplCompiler.Ir

variable {μ : Type} {around : Surroundings μ} {final : Allocation} {written : Reg → Prop} {result : Effect μ}

namespace Allocation

theorem Consistent.home_cases {graph : Interference} (consistent : Consistent graph final)
    (many : Reg.machineCount ≤ graph.size) (register : Nat) :
    (final.home? register = none ∧ Reg.machineCount ≤ register) ∨
      ∃ machine : Nat, final.home? register = some machine ∧ machine < Reg.machineCount ∧
        (register ≠ Reg.zero → machine ≠ Reg.zero) := by
  by_cases small : register < Reg.machineCount
  · exact Or.inr ⟨register, consistent.machine register small (Nat.lt_of_lt_of_le small many), small, id⟩
  · have large : Reg.machineCount ≤ register := by omega
    cases given : final.home? register with
    | none => exact Or.inl ⟨rfl, large⟩
    | some machine =>
      have range := consistent.home_range large given
      exact Or.inr ⟨machine, rfl, Nat.lt_of_le_of_lt range.2 (by decide), fun _ => Nat.ne_of_gt range.1⟩

end Allocation

namespace Function

variable {function : Function} {live : LiveMap} {name : Reg → Reg} {instr : Instr} {state : MachineState μ}

theorem next_mem_successors (valid : function.Valid) (indexed : function.Indexed)
    (found : function.code[state.place]? = some instr)
    (done : effect around (labelPlace? function.code) state instr = some result) :
    result.next ∈ function.successors state.place instr := by
  rcases effect_next done with ⟨next, stays⟩ | ⟨label, jumps, placed⟩
  · cases instr <;> simp_all [successors, effect]
  · have labelled : instr.label? = some label := by
      cases instr <;> simp_all [Instr.target?, Instr.label?]
    have position := indexed.position label (valid.labels instr (Array.mem_of_getElem? found) label labelled)
    cases instr <;> simp_all [successors, Instr.target?]

structure Respects (function : Function) (live : LiveMap) (name : Reg → Reg) : Prop where
  machine : ∀ register < Reg.machineCount, name register = register
  nonzero : ∀ register : Nat, register ≠ Reg.zero → name register ≠ Reg.zero
  written : ∀ place instr, function.code[place]? = some instr → ∀ dest register : Nat, instr.def? = some dest →
    register ∈ live.after place → register ≠ dest → Interference.moved? instr ≠ some register →
    name register ≠ name dest
  called : ∀ place instr, function.code[place]? = some instr → instr.isCall = true → ∀ register : Nat,
    register ∈ live.after place → ¬ IsCallerSaved register → ¬ IsCallerSaved (name register)

structure Matches (live : LiveMap) (name : Reg → Reg) (written : Reg → Prop) (state renamed : MachineState μ) :
    Prop where
  place : renamed.place = state.place
  memory : renamed.memory = state.memory
  trace : renamed.trace = state.trace
  held : ∀ register : Nat, register ∈ live.before state.place → register < Reg.machineCount ∨ written register →
    renamed.read (name register) = state.read register

section

variable (stable : function.Stable live) (respects : function.Respects live name) {renamed : MachineState μ}
  (agree : Matches live name written state renamed) {instr : Instr} (found : function.code[state.place]? = some instr)

include stable respects agree found

theorem Matches.sameReads
    (reads : ∀ register : Nat, register ∈ instr.uses → register < Reg.machineCount ∨ written register) :
    ∀ register ∈ instr.uses, renamed.read (name register) = state.read register := by
  intro register used
  by_cases zero : register = Reg.zero
  · rw [zero, respects.machine Reg.zero (by decide), MachineState.read_zero, MachineState.read_zero]
  · exact agree.held register (stable.live_of_use found used zero) (reads register used)

theorem Matches.effect_eq (around : Surroundings μ)
    (reads : ∀ register : Nat, register ∈ instr.uses → register < Reg.machineCount ∨ written register)
    (few : instr.passed ≤ Reg.result) :
    effect around (labelPlace? function.code) renamed (instr.mapRegisters name) =
      (effect around (labelPlace? function.code) state instr).map (Effect.rename name id) := by
  refine effect_mapRegisters (congrArg (· + 1) agree.place) (by simp) agree.memory
    (agree.sameReads stable respects found reads) ?_
  intro register member
  have bounds := Instr.mem_argumentRegisters.mp member
  have small : register < Reg.machineCount := Nat.lt_of_le_of_lt (bounds.2.trans few) (by decide)
  exact respects.machine register small

theorem Matches.apply (valid : function.Valid) (indexed : function.Indexed)
    (done : effect around (labelPlace? function.code) state instr = some result) :
    Matches live name (fun register => written register ∨ instr.def? = some register) (result.apply state)
      ((result.rename name id).apply renamed) := by
  refine ⟨rfl, rfl, congrArg (result.events ++ ·) agree.trace, ?_⟩
  intro register member ready
  by_cases zero : register = Reg.zero
  · rw [zero, respects.machine Reg.zero (by decide), MachineState.read_zero, MachineState.read_zero]
  have nameNonzero := respects.nonzero register zero
  -- What the instruction does not write was live before it, under its name.
  have kept : instr.def? ≠ some register → renamed.registers (name register) = state.registers register := by
    intro unwritten
    have before := stable.live_of_successor found (next_mem_successors valid indexed found done) member unwritten
    have known : register < Reg.machineCount ∨ written register := by tauto
    have same := agree.held register before known
    rwa [MachineState.read_of_ne _ zero, MachineState.read_of_ne _ nameNonzero] at same
  rw [Effect.read_apply _ _ zero, Effect.read_apply _ _ nameNonzero]
  simp only [Effect.rename]
  rcases effect_cases done with ⟨change, unwritten, _⟩ | ⟨dest, value, change, writes, moved, next⟩ |
    ⟨contents, change, called, writes, next⟩
  · rw [change]
    exact kept (by simp [unwritten])
  · have after : register ∈ live.after state.place := by
      rw [LiveMap.after, ← next]
      exact member
    simp only [change, Change.rename, Change.apply]
    by_cases same : register = dest
    · simp [same]
    · have unchanged := kept (by simpa [writes, eq_comm] using same)
      split
      · rename_i shared
        have copied : Interference.moved? instr = some register := by
          by_contra different
          exact respects.written _ instr found dest register writes after same different shared
        rw [moved register (Interference.eq_move writes copied), MachineState.read_of_ne _ zero]
      · exact unchanged
  · have after : register ∈ live.after state.place := by
      rw [LiveMap.after, ← next]
      exact member
    simp only [change, Change.rename, Change.apply]
    by_cases saved : IsCallerSaved register
    · have small : register < Reg.machineCount := Nat.lt_of_le_of_lt saved.2 (by decide)
      simp [respects.machine register small, saved]
    · have unwritten : instr.def? ≠ some register := by
        intro writesIt
        rw [writes register writesIt] at saved
        exact saved (by decide)
      rw [if_neg saved, if_neg (respects.called _ instr found called register after saved)]
      exact kept unwritten

end

theorem step_mapRegisters (state : MachineState μ) (found : function.code[state.place]? = some instr) :
    step around (function.code.map (Instr.mapRegisters name)) state =
      (effect around (labelPlace? function.code) state (instr.mapRegisters name)).map (Effect.apply state) := by
  rw [step, labelPlace?_mapRegisters, Array.getElem?_map, found]
  rfl

theorem run_matches (valid : function.Valid) (indexed : function.Indexed) (stable : function.Stable live)
    (respects : function.Respects live name) (few : ∀ instr ∈ function.code, instr.passed ≤ Reg.result)
    {registers : Reg → Int32} {memory : μ} {steps : Nat}
    (careful : CarefulRun around function.code (.entry registers memory) steps written state) :
    ∃ renamed, run around (function.code.map (Instr.mapRegisters name)) steps (.entry registers memory) =
        some renamed ∧ Matches live name written state renamed := by
  induction careful with
  | start =>
    refine ⟨_, rfl, rfl, rfl, rfl, ?_⟩
    intro register _ machine
    rcases machine with small | never
    · rw [respects.machine register small]
    · exact never.elim
  | @step steps written state next instr before found reads taken ih =>
    obtain ⟨renamed, reached, agree⟩ := ih
    rw [step_eq found] at taken
    obtain ⟨result, done, rfl⟩ := Option.map_eq_some_iff.mp taken
    have same := agree.effect_eq stable respects found around reads (few instr (Array.mem_of_getElem? found))
    refine ⟨(result.rename name id).apply renamed, ?_, agree.apply stable respects found valid indexed done⟩
    rw [run, reached, Option.bind_some, step_mapRegisters renamed (agree.place ▸ found), same, done]
    rfl

theorem allocation_home (valid : function.Valid) (indexed : function.Indexed)
    (done : function.allocation live = .ok final) (member : instr ∈ function.code)
    {register : Nat} (appears : register ∈ instr.uses ∨ instr.def? = some register) :
    (final.home? register).getD register < Reg.machineCount := by
  obtain ⟨consistent, given⟩ := allocation_consistent valid indexed done
  have many : Reg.machineCount ≤ (function.interference live).size := size_interference function live ▸ valid.machine
  have some := given instr member register appears
  rcases consistent.home_cases many register with ⟨free, _⟩ | ⟨machine, home, small, _⟩
  · simp [free] at some
  · simpa [home] using small

theorem machine_mapRegisters (few : instr.passed ≤ Reg.result)
    (small : ∀ register : Nat, register ∈ instr.uses ∨ instr.def? = some register →
      (name register : Nat) < Reg.machineCount) {register : Nat}
    (appears : register ∈ (instr.mapRegisters name).uses ∨ (instr.mapRegisters name).def? = some register) :
    register < Reg.machineCount := by
  have result : Reg.result < Reg.machineCount := by decide
  have arguments : ∀ register ∈ Instr.argumentRegisters instr.passed, register < Reg.machineCount :=
    fun register member => Nat.lt_of_le_of_lt ((Instr.mem_argumentRegisters.mp member).2.trans few) result
  cases instr with
  | call callee count returns =>
    cases returns <;> simp_all [Instr.mapRegisters, Instr.uses, Instr.def?, Instr.passed]
    exact appears.elim (arguments register) (· ▸ result)
  | callRegister callee count returns =>
    cases returns <;> simp_all [Instr.mapRegisters, Instr.uses, Instr.def?, Instr.passed] <;> grind
  | ret returns => cases returns <;> simp_all [Instr.mapRegisters, Instr.uses, Instr.def?]
  | _ =>
    simp_all only [Instr.mapRegisters, Instr.uses, Instr.def?, List.not_mem_nil]
    grind

theorem allocation_respects (valid : function.Valid) (indexed : function.Indexed)
    (done : function.allocation live = .ok final) :
    function.Respects live fun register => (final.home? register).getD register := by
  obtain ⟨consistent, given⟩ := allocation_consistent valid indexed done
  have many : Reg.machineCount ≤ (function.interference live).size := size_interference function live ▸ valid.machine
  -- Two registers in one machine register are not connected.
  have apart : ∀ first second machine : Nat, final.home? first = some machine → final.home? second = some machine →
      first ≠ second → (first, second) ∉ function.edges live := by
    intro first second machine firstHome secondHome different edge
    exact consistent.proper first second machine firstHome secondHome different
      ((mem_neighbours_interference (size_interference function live ▸ consistent.assignedSize ▸
        Allocation.lt_of_home? firstHome)).mpr (Or.inl edge))
  constructor
  case machine =>
    intro register small
    simp [consistent.machine register small (Nat.lt_of_lt_of_le small many)]
  case nonzero =>
    intro register nonzero
    rcases consistent.home_cases many register with ⟨free, _⟩ | ⟨machine, home, _, machineNonzero⟩
    · simpa [free] using nonzero
    · simpa [home] using machineNonzero nonzero
  case written =>
    intro place instr found dest register writes after different notMoved shared
    have inCode : instr ∈ function.code := Array.mem_of_getElem? found
    obtain ⟨machine, home⟩ := Option.isSome_iff_exists.mp (given instr inCode dest (Or.inr writes))
    have edge : (dest, register) ∈ function.edges live :=
      mem_edges.mpr ⟨place, instr, found, Interference.mem_instrEdges.mpr
        ⟨after, different, Or.inl ⟨writes, fun same => notMoved same.symm⟩⟩⟩
    rcases consistent.home_cases many register with ⟨free, large⟩ | ⟨other, otherHome, _⟩
    · have small := allocation_home valid indexed done inCode (Or.inr writes)
      simp only [free] at shared
      exact absurd small (Nat.not_lt.mpr (shared ▸ large))
    · simp only [otherHome, home, Option.getD_some] at shared
      subst other
      exact apart dest register machine home otherHome (Ne.symm different) edge
  case called =>
    intro place instr found called register after unsaved saved
    rcases consistent.home_cases many register with ⟨free, _⟩ | ⟨machine, home, small, _⟩
    · rw [free] at saved
      exact unsaved saved
    · rw [home] at saved
      have different : register ≠ machine := by
        rintro rfl
        exact unsaved saved
      have edge : (machine, register) ∈ function.edges live :=
        mem_edges.mpr ⟨place, instr, found, Interference.mem_instrEdges.mpr ⟨after, different, Or.inr ⟨called, saved⟩⟩⟩
      have kept := consistent.machine machine small (Nat.lt_of_lt_of_le small many)
      exact apart machine register machine kept home (Ne.symm different) edge

theorem allocate_eq {allocated : Function} (success : function.allocate live = .ok allocated) :
    ∃ final, function.allocation live = .ok final ∧
      allocated.code = function.code.map (Instr.mapRegisters fun register => (final.home? register).getD register) := by
  simp only [allocate] at success
  split at success
  · cases success
  · rename_i final done
    cases success
    exact ⟨final, done, rfl⟩

/-- The code of a successful allocation has machine registers only, and matches every careful run step by step. -/
theorem allocate_matches_runs (around : Surroundings μ) {source function allocated : Function}
    (rebuilt : source.rebuild = .ok function) (valid : function.Valid)
    (few : ∀ instr ∈ function.code, instr.passed ≤ Reg.result)
    (success : function.allocate function.liveMap = .ok allocated) :
    ∃ name : Reg → Reg,
      (∀ register < Reg.machineCount, name register = register) ∧
      allocated.code = function.code.map (Instr.mapRegisters name) ∧
      (∀ instr ∈ allocated.code, ∀ register : Nat, register ∈ instr.uses ∨ instr.def? = some register →
        register < Reg.machineCount) ∧
      ∀ (registers : Reg → Int32) (memory : μ) (steps : Nat) (written : Reg → Prop) (state : MachineState μ),
        CarefulRun around function.code (.entry registers memory) steps written state →
        ∃ matched, run around allocated.code steps (.entry registers memory) = some matched ∧
          matched.place = state.place ∧ matched.memory = state.memory ∧ matched.trace = state.trace ∧
          ∀ instr, function.code[state.place]? = some instr →
            (∀ register : Nat, register ∈ instr.uses → register < Reg.machineCount ∨ written register) →
            (∀ register ∈ instr.uses, matched.read (name register) = state.read register) ∧
            (step around allocated.code matched).isSome = (step around function.code state).isSome := by
  have indexed := rebuild_indexed rebuilt
  have stable := liveMap_stable function
  obtain ⟨final, done, code⟩ := allocate_eq success
  have respects := allocation_respects valid indexed done
  refine ⟨_, respects.machine, code, ?_, ?_⟩
  · rw [code]
    intro renamed member register appears
    obtain ⟨instr, inCode, rfl⟩ := Array.mem_map.mp member
    refine machine_mapRegisters (few instr inCode) ?_ appears
    intro original originalAppears
    exact allocation_home valid indexed done inCode originalAppears
  · intro registers memory steps written state careful
    obtain ⟨matched, reached, agree⟩ := run_matches valid indexed stable respects few careful
    rw [code]
    refine ⟨matched, reached, agree.place, agree.memory, agree.trace, ?_⟩
    intro instr found reads
    have same := agree.effect_eq stable respects found around reads
      (few instr (Array.mem_of_getElem? found))
    refine ⟨agree.sameReads stable respects found reads, ?_⟩
    rw [step_mapRegisters matched (agree.place ▸ found), same, step_eq found]
    simp

def constantResult : Function :=
  { empty "constant" true with
    code := #[.start, .constant 32 5, .move Reg.result 32, .ret true]
    registers := (empty "constant" true).registers.push ⟨"T0", .temp⟩ }

theorem allocate_matches_runs_constantResult :
    ∃ function allocated, constantResult.rebuild = .ok function ∧
      function.allocate function.liveMap = .ok allocated ∧
      ∃ matched : MachineState Unit,
        run .none allocated.code 3 (.entry (fun _ => 0) ()) = some matched ∧ matched.place = 3 ∧
          matched.read Reg.result = 5 := by
  let function : Function := { constantResult with index := .ofCode 33 1 constantResult.code.toList }
  have rebuilt : constantResult.rebuild = .ok function := rfl
  have valid : function.Valid := by
    constructor <;> simp [function, constantResult, empty, Instr.uses, Instr.def?, Instr.label?, Reg.machineCount,
      Reg.result]
  have few : ∀ instr ∈ function.code, instr.passed ≤ Reg.result := by
    simp [function, constantResult, Instr.passed]
  have accepted : (function.allocate function.liveMap).isOk = true := by decide +kernel
  cases success : function.allocate function.liveMap with
  | error problem => simp [success, Except.toBool] at accepted
  | ok allocated =>
    obtain ⟨name, machine, _, _, matching⟩ := allocate_matches_runs .none rebuilt valid few success
    have entered : function.code[0]? = some .start := rfl
    have loaded : function.code[1]? = some (.constant 32 5) := rfl
    have copied : function.code[2]? = some (.move Reg.result 32) := rfl
    have careful : CarefulRun .none function.code (.entry (fun _ => 0) ()) 3 _ _ :=
      .step (.step (.step .start entered (by simp [Instr.uses]) rfl) loaded (by simp [Instr.uses]) rfl) copied
        (by simp [Instr.uses, Instr.def?]) rfl
    obtain ⟨matched, reached, place, _, _, next⟩ := matching _ _ _ _ _ careful
    have same := (next (.ret true) rfl (by simp [Instr.uses, Reg.result, Reg.machineCount])).1 Reg.result
      (by simp [Instr.uses])
    rw [machine Reg.result (by decide)] at same
    exact ⟨function, allocated, rebuilt, success, matched, reached, place, same⟩

end Function

end FplCompiler.Ir

import FplCompiler.Proofs.Emission
import FplCompiler.Proofs.Reference

/-!
Code follows an evaluation: from a state that holds the variables it reaches one that holds them after the evaluation,
with the same memory and the same calls, where the evaluation says that it goes on. An evaluation that gives up after
so many passes of a loop is followed for at least as many steps.
-/

namespace FplCompiler.Ir

variable {μ : Type} {around : Surroundings μ} {code : Array Instr} {state : MachineState μ} {instr : Instr}

def Reaches (around : Surroundings μ) (code : Array Instr) (state next : MachineState μ) : Prop :=
  ∃ steps, run around code steps state = some next

theorem run_add (first second : Nat) (state : MachineState μ) :
    run around code (first + second) state = (run around code first state).bind (run around code second) := by
  induction second with
  | zero => simp [run]
  | succ second ih =>
    rw [← Nat.add_assoc, run, ih, Option.bind_assoc]
    rfl

theorem Reaches.refl (state : MachineState μ) : Reaches around code state state :=
  ⟨0, rfl⟩

theorem Reaches.trans {first second third : MachineState μ} (lower : Reaches around code first second)
    (upper : Reaches around code second third) : Reaches around code first third := by
  obtain ⟨lowerSteps, lowerRun⟩ := lower
  obtain ⟨upperSteps, upperRun⟩ := upper
  exact ⟨lowerSteps + upperSteps, by rw [run_add, lowerRun, Option.bind_some, upperRun]⟩

namespace MachineState

def assign (state : MachineState μ) (register : Reg) (value : Int32) : MachineState μ :=
  Effect.apply state (.plain state (.set register value))

def goto (state : MachineState μ) (place : Nat) : MachineState μ :=
  Effect.apply state (.jump state place)

theorem read_assign (state : MachineState μ) {register : Reg} (nonzero : register ≠ Reg.zero) (value : Int32)
    (other : Reg) :
    (state.assign register value).read other = if other = register then value else state.read other := by
  by_cases zero : other = Reg.zero
  · subst other
    simp [Ne.symm nonzero]
  · rw [assign, Effect.read_apply _ _ zero, read_of_ne _ zero]
    rfl

@[simp]
theorem place_goto (state : MachineState μ) (place : Nat) : (state.goto place).place = place :=
  rfl

@[simp]
theorem read_goto (state : MachineState μ) (place : Nat) (register : Reg) :
    (state.goto place).read register = state.read register :=
  rfl

end MachineState

theorem run_one (found : code[state.place]? = some instr) {result : Effect μ}
    (done : effect around (labelPlace? code) state instr = some result) :
    run around code 1 state = some (result.apply state) := by
  rw [run, run, Option.bind_some, step_eq found, done, Option.map_some]

theorem Reaches.assign (found : code[state.place]? = some instr) {register : Reg} {value : Int32}
    (done : effect around (labelPlace? code) state instr = some (.plain state (.set register value))) :
    Reaches around code state (state.assign register value) :=
  ⟨1, run_one found done⟩

theorem Reaches.goto (found : code[state.place]? = some instr) {place : Nat}
    (done : effect around (labelPlace? code) state instr = some (.jump state place)) :
    Reaches around code state (state.goto place) :=
  ⟨1, run_one found done⟩

end FplCompiler.Ir

namespace FplCompiler.Codegen

open Ir Reference

variable {μ : Type} {around : Surroundings μ} {final : Ir.Function} {machine : MachineState μ} {state later : State}
  {exits : Exits} {own : List Label} {store : Store μ} {register : Nat} {keep fewer : Nat → Prop} {inLoop : Bool}

def IsVariable (final : Ir.Function) (register : Nat) : Prop :=
  ∃ symbol : Nat, final.variableRegs.lookup symbol = some register

structure Related (final : Ir.Function) (store : Store μ) (state : MachineState μ) : Prop where
  memory : state.memory = store.memory
  trace : state.trace = store.trace
  holds : ∀ (symbol : Nat) (value : Int32), store.locals symbol = some value →
    ∃ register : Nat, final.variableRegs.lookup symbol = some register ∧ state.read register = value

def Keeps (keep : Nat → Prop) (state later : MachineState μ) : Prop :=
  ∀ register : Nat, keep register → later.read register = state.read register

theorem Keeps.refl (keep : Nat → Prop) (state : MachineState μ) : Keeps keep state state :=
  fun _ _ => rfl

theorem Keeps.trans {first second third : MachineState μ} (lower : Keeps keep first second)
    (upper : Keeps keep second third) : Keeps keep first third :=
  fun register kept => (upper register kept).trans (lower register kept)

theorem Keeps.mono {state later : MachineState μ} (keeps : Keeps keep state later)
    (less : ∀ register, fewer register → keep register) : Keeps fewer state later :=
  fun register kept => keeps register (less register kept)

structure Exits where
  leaveLoop : Nat
  nextPass : Nat
  leaveFunction : Nat

def Follows {α : Type} (around : Surroundings μ) (final : Ir.Function) (exits : Exits) (passes : Nat)
    (keep : Nat → Prop) (state : MachineState μ) (outcome : Outcome μ α) (result : α → MachineState μ → Prop) : Prop :=
  match outcome with
  | .done value store => ∃ later, Reaches around final.code state later ∧ Related final store later ∧
      Keeps keep state later ∧ result value later
  | .jump .leaveLoop store => ∃ later, Reaches around final.code state later ∧ Related final store later ∧
      Keeps keep state later ∧ later.place = exits.leaveLoop
  | .jump .nextPass store => ∃ later, Reaches around final.code state later ∧ Related final store later ∧
      Keeps keep state later ∧ later.place = exits.nextPass
  | .jump (.leaveFunction value) store => ∃ later, Reaches around final.code state later ∧ Related final store later ∧
      later.place = exits.leaveFunction ∧ ∀ word, value = some word → later.read Reg.result = word
  | .wrong => True
  | .timeout store => ∃ steps later, passes ≤ steps ∧ run around final.code steps state = some later ∧
      later.memory = store.memory ∧ later.trace = store.trace

section Follows

variable {α β : Type} {exits : Exits} {passes : Nat} {state : MachineState μ}
  {result middle : α → MachineState μ → Prop} {outcome : Outcome μ α} {next : α → Eval μ β} {first : Eval μ α}

theorem Follows.after {middle : MachineState μ}
    (reaches : Reaches around final.code state middle) (keeps : Keeps keep state middle)
    (follows : Follows around final exits passes keep middle outcome result) :
    Follows around final exits passes keep state outcome result := by
  unfold Follows at follows ⊢
  split
  · obtain ⟨later, rest, related, kept, good⟩ := follows
    exact ⟨later, reaches.trans rest, related, keeps.trans kept, good⟩
  · obtain ⟨later, rest, related, kept, place⟩ := follows
    exact ⟨later, reaches.trans rest, related, keeps.trans kept, place⟩
  · obtain ⟨later, rest, related, kept, place⟩ := follows
    exact ⟨later, reaches.trans rest, related, keeps.trans kept, place⟩
  · obtain ⟨later, rest, related, place, value⟩ := follows
    exact ⟨later, reaches.trans rest, related, place, value⟩
  · trivial
  · obtain ⟨steps, later, enough, rest, memory, trace⟩ := follows
    obtain ⟨first, reached⟩ := reaches
    exact ⟨first + steps, later, by omega, by rw [run_add, reached, Option.bind_some, rest], memory, trace⟩

theorem Follows.goto {place : Nat} (reaches : Reaches around final.code state (state.goto place))
    (follows : Follows around final exits passes keep (state.goto place) outcome result) :
    Follows around final exits passes keep state outcome result :=
  .after reaches (fun _ _ => rfl) follows

theorem Follows.mono {weaker : α → MachineState μ → Prop}
    (follows : Follows around final exits passes keep state outcome result)
    (less : ∀ register, fewer register → keep register)
    (implies : ∀ value store later, Related final store later → Keeps keep state later → result value later →
      weaker value later) :
    Follows around final exits passes fewer state outcome weaker := by
  unfold Follows at follows ⊢
  split
  · obtain ⟨later, rest, related, kept, good⟩ := follows
    exact ⟨later, rest, related, kept.mono less, implies _ _ later related kept good⟩
  · obtain ⟨later, rest, related, kept, place⟩ := follows
    exact ⟨later, rest, related, kept.mono less, place⟩
  · obtain ⟨later, rest, related, kept, place⟩ := follows
    exact ⟨later, rest, related, kept.mono less, place⟩
  · exact follows
  · trivial
  · exact follows

theorem Follows.keepLess (follows : Follows around final exits passes keep state outcome result)
    (less : ∀ register, fewer register → keep register) :
    Follows around final exits passes fewer state outcome result :=
  follows.mono less fun _ _ _ _ _ good => good

theorem Follows.bindDone {result : β → MachineState μ → Prop}
    (follows : Follows around final exits passes keep state (first store) middle)
    (continues : ∀ value last later, first store = .done value last → Related final last later →
      Keeps keep state later → middle value later →
      Follows around final exits passes keep later (next value last) result) :
    Follows around final exits passes keep state ((first >>= next) store) result := by
  rw [Eval.bind_apply]
  cases outcome : first store with
  | done value last =>
    rw [outcome] at follows
    obtain ⟨later, rest, related, kept, good⟩ := follows
    exact .after rest kept (continues value last later outcome related kept good)
  | jump jump store =>
    rw [outcome] at follows
    cases jump <;> exact follows
  | wrong => trivial
  | timeout store =>
    rw [outcome] at follows
    exact follows

theorem Follows.bind {result : β → MachineState μ → Prop}
    (follows : Follows around final exits passes keep state (first store) middle)
    (continues : ∀ value store later, Related final store later → Keeps keep state later → middle value later →
      Follows around final exits passes keep later (next value store) result) :
    Follows around final exits passes keep state ((first >>= next) store) result :=
  follows.bindDone fun value last later _ => continues value last later

theorem Follows.finish (follows : Follows around final exits passes keep state outcome middle)
    (ends : ∀ value store later, Related final store later → Keeps keep state later → middle value later →
      Follows around final exits passes keep later (.done value store) result) :
    Follows around final exits passes keep state outcome result := by
  cases outcome with
  | done value store =>
    obtain ⟨later, rest, related, kept, good⟩ := follows
    exact .after rest kept (ends value store later related kept good)
  | jump kind store => cases kind <;> exact follows
  | wrong => trivial
  | timeout store => exact follows

theorem Follows.weaken {fewer : Nat}
    (follows : Follows around final exits passes keep state outcome result) (less : fewer ≤ passes) :
    Follows around final exits fewer keep state outcome result := by
  cases outcome with
  | timeout store =>
    obtain ⟨steps, later, enough, rest, memory, trace⟩ := follows
    exact ⟨steps, later, less.trans enough, rest, memory, trace⟩
  | done value store => exact follows
  | jump kind store => cases kind <;> exact follows
  | wrong => trivial

theorem Follows.afterStep {middle : MachineState μ}
    (taken : run around final.code 1 state = some middle) (keeps : Keeps keep state middle)
    (follows : Follows around final exits passes keep middle outcome result) :
    Follows around final exits (passes + 1) keep state outcome result := by
  cases outcome with
  | timeout store =>
    obtain ⟨steps, later, enough, rest, memory, trace⟩ := follows
    exact ⟨1 + steps, later, by omega, by rw [run_add, taken, Option.bind_some, rest], memory, trace⟩
  | done value store => exact Follows.after ⟨1, taken⟩ keeps follows
  | jump kind store => cases kind <;> exact Follows.after ⟨1, taken⟩ keeps follows
  | wrong => trivial

theorem Follows.done {value : α} (related : Related final store state) (good : result value state) :
    Follows around final exits passes keep state (.done value store) result :=
  ⟨state, .refl state, related, .refl keep state, good⟩

end Follows

/-! Code and the finished function that it becomes a part of. -/

structure Finished (final : Ir.Function) (exits : Exits) (state : State) : Prop where
  regular : Regular final
  extends_ : Extends state.function final
  leaveFunction : labelPlace? final.code Function.returnLabel = some exits.leaveFunction
  leaveLoop : ∀ labels, state.loop = some labels → labelPlace? final.code labels.breakLabel = some exits.leaveLoop
  nextPass : ∀ label, state.nextPass? = some label → labelPlace? final.code label = some exits.nextPass

theorem Finished.before (finished : Finished final exits later)
    (steps : Later own state later) : Finished final exits state where
  regular := finished.regular
  extends_ := steps.extends_.trans finished.extends_
  leaveFunction := finished.leaveFunction
  leaveLoop labels given := by
    obtain ⟨laterLabels, laterGiven, sameBreak, _⟩ := steps.loop labels given
    exact sameBreak ▸ finished.leaveLoop laterLabels laterGiven
  nextPass label next := by
    obtain ⟨labels, given, isNext⟩ := Option.bind_eq_some_iff.mp next
    obtain ⟨laterLabels, laterGiven, _, sameNext⟩ := steps.loop labels given
    exact finished.nextPass label (by simp [State.nextPass?, laterGiven, sameNext label isNext])

def Inside (inLoop : Bool) (state : State) : Prop :=
  inLoop = true → state.loop.isSome = true

theorem Later.inside (steps : Later own state later) (inside : Inside inLoop state) : Inside inLoop later := by
  intro needed
  obtain ⟨labels, given⟩ := Option.isSome_iff_exists.mp (inside needed)
  obtain ⟨laterLabels, laterGiven, _⟩ := steps.loop labels given
  simp [laterGiven]

def Older (state : State) (register : Nat) : Prop :=
  Reg.machineCount ≤ register ∧ register < state.function.registers.size

theorem Later.older (steps : Later own state later) (register : Nat)
    (older : Older state register) : Older later register :=
  ⟨older.1, Nat.lt_of_lt_of_le older.2 steps.extends_.registers⟩

def IsValue (state : State) (register : Nat) : Prop :=
  register = Reg.zero ∨ Older state register

theorem Keeps.value {later : MachineState μ} (keeps : Keeps (Older state) machine later)
    (isValue : IsValue state register) : later.read register = machine.read register := by
  rcases isValue with rfl | older
  · rw [MachineState.read_zero, MachineState.read_zero]
  · exact keeps register older

theorem Later.isValue (steps : Later own state later) (isValue : IsValue state register) : IsValue later register :=
  isValue.imp id (steps.older register)

structure ValueCode (around : Surroundings μ) (passes : Nat) (inLoop : Bool) (code : Gen Reg) (value : Eval μ Int32) :
    Prop where
  later : ∀ state, Ready state → Later [] state (code state).2
  isValue : ∀ state, Ready state → IsValue (code state).2 (code state).1
  follows : ∀ (final : Ir.Function) exits state (machine : MachineState μ) store, Ready state → Inside inLoop state →
    Finished final exits (code state).2 → machine.place = state.function.code.size → Related final store machine →
    Follows around final exits passes (Older state) machine (value store) fun word later =>
      later.place = (code state).2.function.code.size ∧ later.read (code state).1 = word

/-! How generated code runs, put together from how its parts do. -/

/-- The function that code becomes a part of, where jumps out of the code lead to, and registers that it has to keep. -/
structure Course (around : Surroundings μ) (passes : Nat) where
  final : Ir.Function
  exits : Exits
  keep : Nat → Prop

variable {passes : Nat} {course : Course around passes} {others : List Label} {instr : Instr} {α β : Type}

abbrev Course.Follows (course : Course around passes) (machine : MachineState μ) (outcome : Outcome μ α)
    (result : α → MachineState μ → Prop) : Prop :=
  Codegen.Follows around course.final course.exits passes course.keep machine outcome result

structure Course.Holds (course : Course around passes) (inLoop : Bool) (state later : State) : Prop where
  inside : Inside inLoop state
  finished : Finished course.final course.exits later
  older : ∀ register, course.keep register → Older state register

structure Owns (own : List Label) (state : State) : Prop where
  ready : Ready state
  apart : own.Nodup
  reserved : ∀ label ∈ own, Reserved label state

theorem Owns.none (ready : Ready state) : Owns [] state :=
  ⟨ready, .nil, by simp⟩

theorem Owns.left (owns : Owns (own ++ others) state) : Owns own state :=
  ⟨owns.ready, (List.nodup_append.mp owns.apart).1, fun label member => owns.reserved label (List.mem_append_left _ member)⟩

theorem Later.owns (steps : Later own state later) (owns : Owns (own ++ others) state) : Owns others later := by
  obtain ⟨_, apart, different⟩ := List.nodup_append.mp owns.apart
  refine ⟨steps.ready owns.ready, apart, fun label member => ?_⟩
  exact steps.reserved label (fun inOwn => different label inOwn label member rfl)
    (owns.reserved label (List.mem_append_right _ member))

/-- A step that places its own labels, and how the code that it adds runs. -/
structure Makes (inLoop : Bool) (own : List Label) (step : Gen α)
    (runs : Course around passes → State → α → State → Prop) : Prop where
  later : ∀ state, Owns own state → Later own state (step state).2
  runs : ∀ course state, Owns own state → course.Holds inLoop state (step state).2 →
    runs course state (step state).1 (step state).2

structure Adds (course : Course around passes) (state : State) (instr : Instr) (later : State) : Prop where
  found : course.final.code[state.function.code.size]? = some instr
  size : later.function.code.size = state.function.code.size + 1
  finished : Finished course.final course.exits later
  older : ∀ register, course.keep register → Older state register

/-- A register that may be written to without a change of what is stored or has to be kept. -/
structure Free (course : Course around passes) (register : Nat) : Prop where
  nonzero : register ≠ Reg.zero
  unnamed : ¬ IsVariable course.final register
  unkept : ¬ course.keep register

structure Fresh (course : Course around passes) (state : State) (register : Nat) (later : State) : Prop
    extends Free course register where
  newer : ¬ Older state register
  older : Older later register

theorem Ready.size_ne_zero (ready : Ready state) : state.function.registers.size ≠ Reg.zero := by
  have machine := ready.regular.machine
  intro zero
  exact absurd (zero ▸ machine) (by decide)

theorem Course.Holds.fresh (holds : course.Holds inLoop state later) (ready : Ready state)
    (same : later.function.variableRegs = state.function.variableRegs)
    (more : later.function.registers.size = state.function.registers.size + 1) :
    Fresh course state state.function.registers.size later where
  nonzero := ready.size_ne_zero
  unnamed := by
    rintro ⟨symbol, given⟩
    have older := holds.finished.extends_.older symbol _ given (by omega)
    rw [same] at older
    exact Nat.lt_irrefl _ (ready.regular.homes symbol _ older).2
  unkept kept := Nat.lt_irrefl _ (holds.older _ kept).2
  newer older := Nat.lt_irrefl _ older.2
  older := ⟨ready.regular.machine, by omega⟩

theorem Course.Holds.adds (holds : course.Holds inLoop state later) (before : State) (same : later = before.add instr)
    (code : before.function.code = state.function.code) : Adds course state instr later := by
  subst same
  refine ⟨?_, ?_, holds.finished, holds.older⟩ <;> rw [← code]
  · exact holds.finished.extends_.found (by simp [State.add])
  · exact Array.size_push _

namespace Makes

variable {first step : Gen α} {rest : α → Gen β} {runs other : Course around passes → State → α → State → Prop}
  {restRuns : α → Course around passes → State → β → State → Prop}

theorem mono (makes : Makes inLoop own step runs)
    (implies : ∀ course state value later, runs course state value later → other course state value later) :
    Makes inLoop own step other :=
  ⟨makes.later, fun course state owns holds => implies _ _ _ _ (makes.runs course state owns holds)⟩

theorem congr {same : Gen α} (makes : Makes inLoop own step runs)
    (equal : ∀ state, Owns own state → same state = step state) : Makes inLoop own same runs where
  later state owns := by
    rw [equal state owns]
    exact makes.later state owns
  runs course state owns := by
    rw [equal state owns]
    exact makes.runs course state owns

theorem pure (value : α) : Makes inLoop [] (Pure.pure value : Gen α) fun (_ : Course around passes) state result later =>
    result = value ∧ later = state :=
  ⟨fun state _ => .refl state, fun _ _ _ _ => ⟨rfl, rfl⟩⟩

theorem bind (makes : Makes inLoop own first runs)
    (goesOn : ∀ value, Makes inLoop others (rest value) (restRuns value)) :
    Makes inLoop (own ++ others) (first >>= rest) fun course state result later =>
      ∃ value middle, Later own state middle ∧ runs course state value middle ∧
        restRuns value course middle result later where
  later state owns := by
    have steps := makes.later state owns.left
    exact steps.trans ((goesOn _).later _ (steps.owns owns))
  runs course state owns holds := by
    have steps := makes.later state owns.left
    have next := (goesOn (first state).1).later _ (steps.owns owns)
    refine ⟨_, _, steps, makes.runs course state owns.left ?_, (goesOn _).runs course _ (steps.owns owns) ?_⟩
    · exact ⟨holds.inside, holds.finished.before next, holds.older⟩
    · exact ⟨steps.inside holds.inside, holds.finished, fun register kept =>
        steps.older register (holds.older register kept)⟩

theorem newLabel (own : List Label) {rest : Label → Gen β} {owned : Label → List Label}
    {restRuns : Label → Course around passes → State → β → State → Prop}
    (goesOn : ∀ label, Makes inLoop (owned label) (rest label) (restRuns label))
    (owns : ∀ label, (owned label).Perm (label :: own)) :
    Makes inLoop own (liftM Emit.newLabel >>= rest) fun course state result later =>
      restRuns state.function.labelCount course state.withLabel result later := by
  have opens : ∀ state, Owns own state → Owns (owned state.function.labelCount) state.withLabel := by
    intro state owned_
    have steps := later_withLabel state
    refine ⟨steps.ready owned_.ready, (owns _).nodup_iff.mpr (List.nodup_cons.mpr ⟨?_, owned_.apart⟩), ?_⟩
    · exact fun member => Nat.lt_irrefl _ (owned_.reserved _ member).1.1
    · intro label member
      rcases List.mem_cons.mp ((owns _).mem_iff.mp member) with rfl | old
      · exact reserved_withLabel owned_.ready
      · exact steps.reserved label (by simp) (owned_.reserved label old)
  constructor
  case later =>
    intro state owned_
    have steps := (later_withLabel state).trans ((goesOn _).later _ (opens state owned_))
    refine ⟨steps.ready, steps.extends_, fun label notOwn reserved => ?_, steps.functions, steps.noLoop, steps.loop⟩
    refine steps.reserved label (fun member => ?_) reserved
    rcases List.mem_cons.mp ((owns _).mem_iff.mp member) with rfl | old
    · exact Nat.lt_irrefl _ reserved.1.1
    · exact notOwn old
  case runs =>
    intro course state owned_ holds
    exact (goesOn _).runs course _ (opens state owned_) ⟨holds.inside, holds.finished, holds.older⟩

theorem add (instr : Instr) : Makes inLoop (placed? instr).toList (liftM (Emit.add instr) : Gen Unit)
    fun (course : Course around passes) state _ later => Adds course state instr later where
  later _ owns := .add fun label placed => owns.reserved label (by simp [placed])
  runs _ state _ holds := holds.adds state rfl rfl

theorem newScratch : Makes inLoop [] (liftM Emit.newScratch : Gen Reg)
    fun (course : Course around passes) state register later =>
      Fresh course state register later ∧ later.function.code.size = state.function.code.size where
  later state _ := later_withScratch state
  runs _ _ owns holds := ⟨holds.fresh owns.ready rfl (Array.size_push _), rfl⟩

theorem toTemp (instr : Reg → Instr) (plain : ∀ dest, placed? (instr dest) = none) :
    Makes inLoop [] (liftM (Emit.toTemp instr) : Gen Reg) fun (course : Course around passes) state register later =>
      Fresh course state register later ∧ Adds course state (instr register) later where
  later state _ := (later_withTemp state).trans (.addPlain _ (plain _))
  runs _ state owns holds := ⟨holds.fresh owns.ready rfl (Array.size_push _), holds.adds state.withTemp rfl rfl⟩

end Makes

/-- From where the code begins, the evaluation is followed to such a result. -/
def Course.Runs (course : Course around passes) (state : State) (eval : Eval μ α) (result : α → MachineState μ → Prop) :
    Prop :=
  ∀ machine store, machine.place = state.function.code.size → Related course.final store machine →
    course.Follows machine (eval store) result

def Course.RunsKeeping (course : Course around passes) (state : State) (eval : Eval μ α)
    (result : α → MachineState μ → Prop) : Prop :=
  ∀ machine store, machine.place = state.function.code.size → Related course.final store machine →
    course.Follows machine (eval store) fun value last => result value last ∧ Keeps (Older state) machine last

def Course.keeping (course : Course around passes) (keep : Nat → Prop) : Course around passes :=
  { course with keep := keep }

/-- As any register in use may have to be kept, all are. -/
theorem Course.Holds.runsKeeping {eval : Eval μ α} {result : α → MachineState μ → Prop}
    (holds : course.Holds inLoop state later)
    (runs : ∀ keep, (course.keeping keep).Holds inLoop state later → (course.keeping keep).Runs state eval result) :
    course.RunsKeeping state eval result := by
  intro machine store place related
  refine (runs (Older state) ⟨holds.inside, holds.finished, fun _ => id⟩ machine store place related).mono holds.older ?_
  exact fun value store last _ kept good => ⟨good, kept⟩

def Delivers (register : Reg) (later : State) (word : Int32) (last : MachineState μ) : Prop :=
  last.place = later.function.code.size ∧ last.read register = word

section ValueCode

variable {code : Gen Reg} {value : Eval μ Int32}

theorem ValueCode.makes (valueCode : ValueCode around passes inLoop code value) :
    Makes inLoop [] code fun (course : Course around passes) state register later =>
      IsValue later register ∧ course.RunsKeeping state value (Delivers register later) where
  later state owns := valueCode.later state owns.ready
  runs course state owns holds := by
    refine ⟨valueCode.isValue state owns.ready, holds.runsKeeping fun keep kept machine store place related => ?_⟩
    exact (valueCode.follows course.final course.exits state machine store owns.ready kept.inside kept.finished place
      related).keepLess kept.older

theorem ValueCode.ofMakes
    (makes : Makes inLoop [] code fun (course : Course around passes) state register later =>
      course.Runs state value (Delivers register later))
    (isValue : ∀ state, Ready state → IsValue (code state).2 (code state).1) :
    ValueCode around passes inLoop code value where
  later state ready := makes.later state (.none ready)
  isValue := isValue
  follows final exits state machine store ready inside finished place related :=
    makes.runs ⟨final, exits, Older state⟩ state (.none ready) ⟨inside, finished, fun _ => id⟩ machine store place related

end ValueCode

theorem Related.assign (related : Related final store machine)
    (nonzero : register ≠ Reg.zero) (unnamed : ¬ IsVariable final register) (value : Int32) :
    Related final store (machine.assign register value) := by
  refine ⟨related.memory, related.trace, ?_⟩
  intro symbol word given
  obtain ⟨home, lookup, read⟩ := related.holds symbol word given
  refine ⟨home, lookup, ?_⟩
  have different : home ≠ register := by
    rintro rfl
    exact unnamed ⟨symbol, lookup⟩
  rw [machine.read_assign nonzero, if_neg different, read]

theorem Related.goto (related : Related final store machine) (place : Nat) : Related final store (machine.goto place) :=
  ⟨related.memory, related.trace, related.holds⟩

namespace Adds

variable {outcome : Outcome μ α} {result : α → MachineState μ → Prop}

theorem foundAt (adds : Adds course state instr later) (place : machine.place = state.function.code.size) :
    course.final.code[machine.place]? = some instr :=
  place ▸ adds.found

theorem free (adds : Adds course state instr later) (small : register < Reg.machineCount) (nonzero : register ≠ Reg.zero) :
    Free course register where
  nonzero := nonzero
  unnamed := by
    rintro ⟨symbol, given⟩
    exact absurd small (Nat.not_lt.mpr (adds.finished.regular.homes symbol register given).1)
  unkept kept := absurd small (Nat.not_lt.mpr (adds.older register kept).1)

/-- The next instruction only sets a register. -/
theorem set (adds : Adds course state instr later) (free : Free course register)
    (place : machine.place = state.function.code.size) (related : Related course.final store machine) {value : Int32}
    (done : effect around (labelPlace? course.final.code) machine instr = some (.plain machine (.set register value)))
    (continues : ∀ last, last.place = later.function.code.size → Related course.final store last →
      last.read register = value → (∀ other, other ≠ register → last.read other = machine.read other) →
      course.Follows last outcome result) : course.Follows machine outcome result := by
  have reads := machine.read_assign free.nonzero value
  have others : ∀ other, other ≠ register → (machine.assign register value).read other = machine.read other :=
    fun other different => (reads other).trans (if_neg different)
  refine .after (.assign (adds.foundAt place) done) (fun other kept => others other ?_) (continues _ ?_
    (related.assign free.nonzero free.unnamed value) ((reads register).trans (if_pos rfl)) others)
  · rintro rfl
    exact free.unkept kept
  · exact (congrArg (· + 1) place).trans adds.size.symm

end Adds

theorem Fresh.kept {later : State} (fresh : Fresh course state register later) {last : MachineState μ}
    (others : ∀ other, other ≠ register → last.read other = machine.read other) : Keeps (Older state) machine last := by
  refine fun other older => others other ?_
  rintro rfl
  exact fresh.newer older

theorem Fresh.isValue (fresh : Fresh course state register later) : IsValue later register :=
  .inr fresh.older

/-- A new register is set to the value of the evaluation. -/
theorem Fresh.done {value : Int32} (fresh : Fresh course state register later)
    (adds : Adds course state instr later) (place : machine.place = state.function.code.size)
    (related : Related course.final store machine)
    (done : effect around (labelPlace? course.final.code) machine instr = some (.plain machine (.set register value))) :
    course.Follows machine (.done value store) (Delivers register later) :=
  adds.set fresh.toFree place related done fun _ lastPlace lastRelated read _ => .done lastRelated ⟨lastPlace, read⟩

end FplCompiler.Codegen

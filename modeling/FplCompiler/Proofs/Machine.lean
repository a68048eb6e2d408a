import FplCompiler.Ir.Function

/-!
How intermediate code runs. The memory, the calls, the operations on reals and the addresses of static data belong to
the surroundings, which are arbitrary; the results of a call depend on its target, its arguments and the memory alone.
A careful run reads no virtual register before it has written it.
-/

namespace FplCompiler

namespace AluOp

variable {op : AluOp}

def isInteger : AluOp → Bool
  | addI | subI | mulI | divI | modI | andI | orI | xorI | shlI | shrI
  | eqI | neqI | ltI | lteI | gtI | gteI => true
  | _ => false

theorem isInteger_of_evaluate {left right value : Int32}
    (folded : op.evaluate? left right = some value) : op.isInteger = true := by
  cases op <;> first | rfl | simp [evaluate?] at folded

theorem isInteger_of_isCommutative (commutes : op.isCommutative = true) : op.isInteger = true := by
  cases op <;> first | rfl | simp [isCommutative] at commutes

theorem evaluate_comm (commutes : op.isCommutative = true) (left right : Int32) :
    op.evaluate? left right = op.evaluate? right left := by
  cases op <;> simp only [isCommutative, Bool.false_eq_true] at commutes <;>
    simp only [evaluate?, Option.some.injEq]
  case addI => exact Int32.add_comm left right
  case mulI => exact Int32.mul_comm left right
  case andI => exact Int32.and_comm left right
  case orI => exact Int32.or_comm left right
  case xorI => exact Int32.xor_comm left right
  case eqI => simp only [eq_comm]
  case neqI => simp only [ne_eq, eq_comm]

end AluOp

namespace Ir

/-- What a call reaches: a function by its label, or the one that a register holds. -/
inductive Callee where
  | named (label : String)
  | value (word : Int32)
  deriving DecidableEq, Repr

inductive Event where
  | called (callee : Callee) (arguments : List Int32)
  | loaded (size : MemSize) (address value : Int32)
  | stored (size : MemSize) (address value : Int32)
  deriving DecidableEq, Repr

/-- What a call leaves behind: the memory, and the contents of the registers that it may change. -/
structure Answer (μ : Type) where
  memory : μ
  contents : Reg → Int32

/-- What surrounds the code of a function; `μ` is the memory. No answer means that the run stops there. -/
structure Surroundings (μ : Type) where
  addressOf : StaticData → Int32
  realOperation : AluOp → Int32 → Int32 → Option Int32
  load : μ → MemSize → Int32 → Option Int32
  store : μ → MemSize → Int32 → Int32 → Option μ
  call : μ → Callee → List Int32 → Option (Answer μ)

namespace Surroundings

variable {μ : Type}

/-- The result of an operation. Integers are treated as in the folding of constants, and an index that is out of bounds
has no result. -/
def operate (around : Surroundings μ) (op : AluOp) (left right : Int32) : Option Int32 :=
  match op with
  | .idx1 => if 0 ≤ left ∧ left < right then some left else none
  | .idx4 => if 0 ≤ left ∧ left < right then some (4 * left) else none
  | op => if op.isInteger then op.evaluate? left right else around.realOperation op left right

theorem operate_integer (around : Surroundings μ) {op : AluOp} (integer : op.isInteger = true)
    (left right : Int32) : around.operate op left right = op.evaluate? left right := by
  cases op <;> first | rfl | simp [AluOp.isInteger] at integer

def none : Surroundings Unit where
  addressOf _ := 0
  realOperation _ _ _ := .none
  load _ _ _ := .none
  store _ _ _ _ := .none
  call _ _ _ := .none

/-- A memory that keeps a word at each address; calls do nothing. -/
def words : Surroundings (Int32 → Int32) where
  addressOf _ := 0
  realOperation _ _ _ := .none
  load memory _ address := some (memory address)
  store memory _ address value := some fun other => if other = address then value else memory other
  call memory _ _ := some ⟨memory, fun _ => 0⟩

end Surroundings

inductive Change where
  | keep
  | set (register : Reg) (value : Int32)
  | clobber (contents : Reg → Int32)

def IsCallerSaved (register : Nat) : Prop :=
  1 ≤ register ∧ register ≤ Reg.result

instance (register : Nat) : Decidable (IsCallerSaved register) :=
  inferInstanceAs (Decidable (_ ∧ _))

def Change.apply (registers : Reg → Int32) : Change → Reg → Int32
  | .keep => registers
  | .set register value => fun other => if other = register then value else registers other
  | .clobber contents => fun other => if IsCallerSaved other then contents other else registers other

structure MachineState (μ : Type) where
  place : Nat
  registers : Reg → Int32
  memory : μ
  trace : List Event

namespace MachineState

variable {μ : Type}

def read (state : MachineState μ) (register : Reg) : Int32 :=
  if register = Reg.zero then 0 else state.registers register

def entry (registers : Reg → Int32) (memory : μ) : MachineState μ :=
  ⟨0, registers, memory, []⟩

@[simp]
theorem read_zero (state : MachineState μ) : state.read Reg.zero = 0 :=
  if_pos rfl

theorem read_of_ne (state : MachineState μ) {register : Reg} (nonzero : register ≠ Reg.zero) :
    state.read register = state.registers register :=
  if_neg nonzero

end MachineState

structure Effect (μ : Type) where
  next : Nat
  memory : μ
  events : List Event
  change : Change

namespace Effect

variable {μ : Type}

def plain (state : MachineState μ) (change : Change) : Effect μ :=
  ⟨state.place + 1, state.memory, [], change⟩

def jump (state : MachineState μ) (place : Nat) : Effect μ :=
  ⟨place, state.memory, [], .keep⟩

def apply (state : MachineState μ) (effect : Effect μ) : MachineState μ :=
  ⟨effect.next, effect.change.apply state.registers, effect.memory, effect.events ++ state.trace⟩

theorem read_apply (state : MachineState μ) (effect : Effect μ) {register : Nat} (nonzero : register ≠ Reg.zero) :
    (effect.apply state).read register = effect.change.apply state.registers register :=
  MachineState.read_of_ne _ nonzero

end Effect

section Steps

variable {μ : Type} (around : Surroundings μ) {state : MachineState μ} {instr : Instr}

def loadEffect (state : MachineState μ) (size : MemSize) (dest base : Reg) (offset : Int32) : Option (Effect μ) :=
  let address := state.read base + offset
  (around.load state.memory size address).map fun value =>
    ⟨state.place + 1, state.memory, [.loaded size address value], .set dest value⟩

def storeEffect (state : MachineState μ) (size : MemSize) (source base : Reg) (offset : Int32) :
    Option (Effect μ) :=
  let address := state.read base + offset
  (around.store state.memory size address (state.read source)).map fun memory =>
    ⟨state.place + 1, memory, [.stored size address (state.read source)], .keep⟩

def callEffect (state : MachineState μ) (callee : Callee) (count : Nat) : Option (Effect μ) :=
  let arguments := (Instr.argumentRegisters count).map state.read
  (around.call state.memory callee arguments).map fun answer =>
    ⟨state.place + 1, answer.memory, [.called callee arguments], .clobber answer.contents⟩

/-- What an instruction does in a state, by the places of the labels. A trap and the end of the function do nothing. -/
def effect (target : Label → Option Nat) (state : MachineState μ) : Instr → Option (Effect μ)
  | .nop | .start | .label _ => some (.plain state .keep)
  | .jump label => (target label).map (.jump state)
  | .branch op left right label =>
    match op.evaluate? (state.read left) (state.read right) with
    | some value => if value ≠ 0 then (target label).map (.jump state) else some (.plain state .keep)
    | none => none
  | .move dest source => some (.plain state (.set dest (state.read source)))
  | .constant dest value => some (.plain state (.set dest value))
  | .alu op dest left right =>
    (around.operate op (state.read left) (state.read right)).map fun value => .plain state (.set dest value)
  | .aluImm op dest left right =>
    (around.operate op (state.read left) right).map fun value => .plain state (.set dest value)
  | .load size dest base offset => loadEffect around state size dest base offset
  | .store size source base offset => storeEffect around state size source base offset
  | .loadField size dest base field => loadEffect around state size dest base field.offset
  | .storeField size source base field => storeEffect around state size source base field.offset
  | .address dest data => some (.plain state (.set dest (around.addressOf data)))
  | .call callee arguments _ => callEffect around state (.named callee) arguments
  | .callRegister callee arguments _ => callEffect around state (.value (state.read callee)) arguments
  | .ret _ => none

variable {around} {target : Label → Option Nat} {result : Effect μ}

theorem effect_cases (done : effect around target state instr = some result) :
    (result.change = .keep ∧ instr.def? = none ∧ instr.isCall = false) ∨
      (∃ register value, result.change = .set register value ∧ instr.def? = some register ∧
        (∀ source, instr = .move register source → value = state.read source) ∧
        result.next = state.place + 1) ∨
      ∃ contents, result.change = .clobber contents ∧ instr.isCall = true ∧
        (∀ register, instr.def? = some register → register = Reg.result) ∧ result.next = state.place + 1 := by
  cases instr with
  | branch op left right label =>
    refine Or.inl ⟨?_, rfl, rfl⟩
    simp only [effect] at done
    split at done
    · split at done
      · obtain ⟨place, _, rfl⟩ := Option.map_eq_some_iff.mp done
        rfl
      · cases done
        rfl
    · cases done
  | call callee count returns =>
    obtain ⟨answer, _, rfl⟩ := Option.map_eq_some_iff.mp done
    exact Or.inr (Or.inr ⟨answer.contents, rfl, rfl, by cases returns <;> simp [Instr.def?], rfl⟩)
  | callRegister callee count returns =>
    obtain ⟨answer, _, rfl⟩ := Option.map_eq_some_iff.mp done
    exact Or.inr (Or.inr ⟨answer.contents, rfl, rfl, by cases returns <;> simp [Instr.def?], rfl⟩)
  | move dest source =>
    cases done
    exact Or.inr (Or.inl ⟨dest, _, rfl, rfl, by simp, rfl⟩)
  | ret returns => cases done
  | _ =>
    simp only [effect, loadEffect, storeEffect, Option.map_eq_some_iff] at done
    obtain ⟨_, _, rfl⟩ := done
    simp [Effect.plain, Effect.jump, Instr.def?, Instr.isCall]

theorem effect_next (done : effect around target state instr = some result) :
    (result.next = state.place + 1 ∧ ∀ label, instr ≠ .jump label) ∨
      ∃ label, instr.target? = some label ∧ target label = some result.next := by
  cases instr with
  | jump label =>
    obtain ⟨place, placed, rfl⟩ := Option.map_eq_some_iff.mp done
    exact Or.inr ⟨label, rfl, placed⟩
  | branch op left right label =>
    simp only [effect] at done
    split at done
    · split at done
      · obtain ⟨place, placed, rfl⟩ := Option.map_eq_some_iff.mp done
        exact Or.inr ⟨label, rfl, placed⟩
      · cases done
        exact Or.inl ⟨rfl, by simp⟩
    · cases done
  | ret returns => cases done
  | _ =>
    simp only [effect, loadEffect, storeEffect, callEffect, Option.map_eq_some_iff] at done
    obtain ⟨_, _, rfl⟩ := done
    exact Or.inl ⟨rfl, by simp⟩

variable (around)

def labelPlace? (code : Array Instr) (label : Label) : Option Nat :=
  (List.range code.size).reverse.find? fun place => code[place]? = some (.label label)

def step (code : Array Instr) (state : MachineState μ) : Option (MachineState μ) :=
  (code[state.place]?.bind (effect around (labelPlace? code) state)).map (Effect.apply state)

variable {around} in
theorem step_eq {code : Array Instr} (found : code[state.place]? = some instr) :
    step around code state = (effect around (labelPlace? code) state instr).map (Effect.apply state) := by
  rw [step, found, Option.bind_some]

def run (code : Array Instr) : Nat → MachineState μ → Option (MachineState μ)
  | 0, state => some state
  | steps + 1, state => (run code steps state).bind (step around code)

inductive CarefulRun (code : Array Instr) (first : MachineState μ) :
    Nat → (Reg → Prop) → MachineState μ → Prop
  | start : CarefulRun code first 0 (fun _ => False) first
  | step {steps : Nat} {written : Reg → Prop} {state next : MachineState μ} {instr : Instr}
      (before : CarefulRun code first steps written state)
      (found : code[state.place]? = some instr)
      (reads : ∀ register : Nat, register ∈ instr.uses → register < Reg.machineCount ∨ written register)
      (taken : step around code state = some next) :
      CarefulRun code first (steps + 1) (fun register => written register ∨ instr.def? = some register) next

end Steps

end Ir

end FplCompiler

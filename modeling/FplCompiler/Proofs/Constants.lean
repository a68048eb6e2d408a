import FplCompiler.Proofs.Index

/-!
Registers that hold one constant in every careful run: those that a single instruction writes, and that gets its value
from constants alone.
-/

namespace FplCompiler.Ir

variable {μ : Type} {around : Surroundings μ} {first state : MachineState μ} {written : Reg → Prop} {value : Int32}
  {steps : Nat}

theorem CarefulRun.read_of_written {code : Array Instr} {register : Nat} (large : Reg.machineCount ≤ register)
    (writes : ∀ steps written (state : MachineState μ) instr result, CarefulRun around code first steps written state →
      code[state.place]? = some instr →
      (∀ register : Nat, register ∈ instr.uses → register < Reg.machineCount ∨ written register) →
      instr.def? = some register → effect around (labelPlace? code) state instr = some result →
      result.change = .set register value)
    (careful : CarefulRun around code first steps written state) (isWritten : written register) :
    state.read register = value := by
  have nonzero : register ≠ Reg.zero := by
    rintro rfl
    exact absurd large (by decide)
  have unsaved : ¬ IsCallerSaved register := fun saved =>
    absurd (Nat.lt_of_le_of_lt saved.2 (by decide)) (Nat.not_lt.mpr large)
  induction careful with
  | start => exact isWritten.elim
  | @step steps written state next instr before found reads taken ih =>
    rw [step_eq found] at taken
    obtain ⟨result, done, rfl⟩ := Option.map_eq_some_iff.mp taken
    rw [Effect.read_apply _ _ nonzero]
    rw [MachineState.read_of_ne _ nonzero] at ih
    rcases effect_cases done with ⟨change, unwritten, _⟩ | ⟨dest, other, change, defined, _⟩ |
      ⟨contents, change, _, defined, _⟩
    · rw [change]
      exact ih (isWritten.resolve_right (by simp [unwritten]))
    · by_cases same : dest = register
      · subst dest
        rw [writes _ _ _ _ _ before found reads defined done]
        simp [Change.apply]
      · have kept := ih (isWritten.resolve_right (by simpa [defined] using same))
        simp [change, Change.apply, Ne.symm same, kept]
    · have kept := ih (isWritten.resolve_right fun written => unsaved (defined register written ▸ by decide))
      simp [change, Change.apply, unsaved, kept]

namespace Function

variable {function : Function} {register : Nat}

structure WellFormed (function : Function) : Prop where
  machine : ∀ register < Reg.machineCount, function.isMachine register = true
  labels : ∀ instr ∈ function.code, ∀ label : Nat, instr.label? = some label → label < function.labelCount

structure OnlyWritten (function : Function) (register place : Nat) (instr : Instr) : Prop where
  isVirtual : function.isMachine register = false
  found : function.code[place]? = some instr
  writes : instr.def? = some register
  unique : ∀ other otherInstr, function.code[other]? = some otherInstr → otherInstr.def? = some register → other = place

theorem OnlyWritten.eq {place : Nat} {instr : Instr} (only : function.OnlyWritten register place instr)
    {otherPlace : Nat} {other : Instr} (found : function.code[otherPlace]? = some other)
    (writes : other.def? = some register) : other = instr := by
  have same := only.unique otherPlace other found writes
  rw [same, only.found, Option.some.injEq] at found
  exact found.symm

inductive HoldsConstant (function : Function) : Nat → Int32 → Prop
  | constant {register place : Nat} {value : Int32}
      (only : function.OnlyWritten register place (.constant register value)) : HoldsConstant function register value
  | move {register source place : Nat} {value : Int32}
      (only : function.OnlyWritten register place (.move register source))
      (holds : HoldsConstant function source value) : HoldsConstant function register value
  | folded {register left place : Nat} {op : AluOp} {constant right value : Int32}
      (only : function.OnlyWritten register place (.aluImm op register left right))
      (holds : HoldsConstant function left constant) (result : op.evaluate? constant right = some value) :
      HoldsConstant function register value

theorem HoldsConstant.isVirtual (holds : function.HoldsConstant register value) :
    function.isMachine register = false := by
  cases holds with
  | constant only | move only | folded only => exact only.isVirtual

theorem WellFormed.le_of_isVirtual (wellFormed : function.WellFormed)
    (isVirtual : function.isMachine register = false) : Reg.machineCount ≤ register := by
  by_contra small
  have machine := wellFormed.machine register (by omega)
  simp [isVirtual] at machine

theorem HoldsConstant.read (wellFormed : function.WellFormed) (holds : function.HoldsConstant register value)
    (careful : CarefulRun around function.code first steps written state)
    (isWritten : written register) : state.read register = value := by
  -- A virtual register that a careful run reads was written before.
  have ready : ∀ {other : Nat} {constant : Int32} {known : Reg → Prop}, function.HoldsConstant other constant →
      other < Reg.machineCount ∨ known other → known other := fun holds read =>
    read.resolve_left (Nat.not_lt.mpr (wellFormed.le_of_isVirtual holds.isVirtual))
  induction holds generalizing steps written state with
  | constant only =>
    refine careful.read_of_written (wellFormed.le_of_isVirtual only.isVirtual) ?_ isWritten
    intro steps written state instr result before found reads defined done
    obtain rfl := only.eq found defined
    cases done
    rfl
  | move only holds ih =>
    refine careful.read_of_written (wellFormed.le_of_isVirtual only.isVirtual) ?_ isWritten
    intro steps written state instr result before found reads defined done
    obtain rfl := only.eq found defined
    have known := ih before (ready holds (reads _ (by simp [Instr.uses])))
    cases done
    rw [← known]
    rfl
  | folded only holds folded ih =>
    refine careful.read_of_written (wellFormed.le_of_isVirtual only.isVirtual) ?_ isWritten
    intro steps written state instr result before found reads defined done
    obtain rfl := only.eq found defined
    have known := ih before (ready holds (reads _ (by simp [Instr.uses])))
    simp only [effect, known, around.operate_integer (AluOp.isInteger_of_evaluate folded), folded] at done
    cases done
    rfl

end Function

end FplCompiler.Ir

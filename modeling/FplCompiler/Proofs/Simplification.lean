import FplCompiler.Ir.Peephole
import FplCompiler.Proofs.Constants
import FplCompiler.Proofs.Refinement

/-!
Simplified code does what the code did. A pass reads code of which a part is rewritten already, by an index of the code
at its start; each replacement is justified by that code alone, so that the code before and after the pass run in step
and differ only in registers that nothing reads.
-/

namespace FplCompiler.Ir

variable {μ : Type} {around : Surroundings μ} {value : Int32}

def Instr.isPure : Instr → Bool
  | .move _ _ | .constant _ _ | .alu _ _ _ _ | .aluImm _ _ _ _ => true
  | _ => false

namespace Function

variable {function rewritten : Function} {register place moves : Nat} {instr other : Instr} {source : Function}

theorem simpler?_cases (simpler : function.simpler? place instr = some other) :
    (other = .nop ∧ (instr.isPure = true ∨ (∃ label, instr = .jump label) ∨
      ∃ label, instr = .label label ∧ function.index.jumpCount label = 0)) ∨
    (∃ op dest left right operand value, instr = .alu op dest left right ∧ other = .aluImm op dest operand value) ∨
    ∃ op dest left right value, instr = .aluImm op dest left right ∧ other = .constant dest value := by
  cases instr <;> simp only [simpler?] at simpler
  case move | constant =>
    split at simpler <;> simp only [Option.some.injEq, reduceCtorEq] at simpler
    exact Or.inl ⟨simpler.symm, Or.inl rfl⟩
  case jump label =>
    split at simpler <;> simp only [Option.some.injEq, reduceCtorEq] at simpler
    exact Or.inl ⟨simpler.symm, Or.inr (Or.inl ⟨label, rfl⟩)⟩
  case label label =>
    split at simpler <;> simp only [Option.some.injEq, reduceCtorEq] at simpler
    rename_i unused
    exact Or.inl ⟨simpler.symm, Or.inr (Or.inr ⟨label, rfl, unused⟩)⟩
  case alu op dest left right =>
    split at simpler
    · exact Or.inl ⟨(Option.some.inj simpler).symm, Or.inl rfl⟩
    refine Or.inr (Or.inl ⟨op, dest, left, right, ?_⟩)
    split at simpler
    · exact ⟨_, _, rfl, (Option.some.inj simpler).symm⟩
    split at simpler <;> simp only [Option.ite_none_right_eq_some, Option.some.injEq, reduceCtorEq] at simpler
    exact ⟨_, _, rfl, simpler.2.symm⟩
  case aluImm op dest left right =>
    split at simpler
    · exact Or.inl ⟨(Option.some.inj simpler).symm, Or.inl rfl⟩
    split at simpler <;> simp only [Option.map_eq_some_iff, reduceCtorEq] at simpler
    obtain ⟨value, _, rfl⟩ := simpler
    exact Or.inr (Or.inr ⟨op, dest, left, right, value, rfl, rfl⟩)
  all_goals cases simpler

inductive Replacement (function : Function) (place : Nat) : Instr → Instr → Prop
  | kept (instr : Instr) : Replacement function place instr instr
  | dead {instr : Instr} {dest : Nat} (pure : instr.isPure = true) (writes : instr.def? = some dest)
      (unread : function.isDead dest = true) : Replacement function place instr .nop
  | self (dest : Reg) : Replacement function place (.move dest dest) .nop
  | right {op : AluOp} {dest left right : Nat} {value : Int32} (holds : function.HoldsConstant right value) :
      Replacement function place (.alu op dest left right) (.aluImm op dest left value)
  | left {op : AluOp} {dest left right : Nat} {value : Int32} (holds : function.HoldsConstant left value)
      (commutes : op.isCommutative = true) :
      Replacement function place (.alu op dest left right) (.aluImm op dest right value)
  | folded {op : AluOp} {dest left : Nat} {constant right value : Int32}
      (holds : function.HoldsConstant left constant) (result : op.evaluate? constant right = some value) :
      Replacement function place (.aluImm op dest left right) (.constant dest value)
  | following {label : Nat} (placed : labelPlace? function.code label = some (place + 1)) :
      Replacement function place (.jump label) .nop
  | unused {label : Nat} (unused : ∀ instr ∈ function.code, instr.target? ≠ some label) :
      Replacement function place (.label label) .nop

structure Rewritten (function rewritten : Function) : Prop where
  registers : rewritten.registers = function.registers
  labelCount : rewritten.labelCount = function.labelCount
  index : rewritten.index = function.index
  size : rewritten.code.size = function.code.size
  replaced : ∀ place instr, function.code[place]? = some instr →
    ∃ other, rewritten.code[place]? = some other ∧ function.Replacement place instr other

theorem Rewritten.refl (function : Function) : function.Rewritten function :=
  ⟨rfl, rfl, rfl, rfl, fun _ instr found => ⟨instr, found, .kept instr⟩⟩

theorem lt_of_isVirtual (isVirtual : function.isMachine register = false) :
    register < function.registers.size := by
  by_contra large
  have outside : function.info register = default := by simp [info, large]
  simp [isMachine, outside, default, instInhabitedRegInfo.default, instInhabitedRegKind.default] at isVirtual

theorem onlyWritten_of_definitions (indexed : function.Indexed)
    (isVirtual : function.isMachine register = false) (definitions : function.index.definitions register = [place]) :
    ∃ instr, function.OnlyWritten register place instr := by
  have places := indexed.definitions register (lt_of_isVirtual isVirtual)
  obtain ⟨instr, found, writes⟩ := (places place).mp (by simp [definitions])
  refine ⟨instr, isVirtual, found, writes, ?_⟩
  intro other otherInstr otherFound otherWrites
  have member := (places other).mpr ⟨otherInstr, otherFound, otherWrites⟩
  simpa [definitions] using member

section

variable (rewrites : function.Rewritten rewritten) {register place : Nat} {instr : Instr}
  (only : function.OnlyWritten register place instr)

include rewrites only

theorem Rewritten.holdsConstant_of_constant {dest : Reg}
    (found : rewritten.code[place]? = some (.constant dest value)) : function.HoldsConstant register value := by
  obtain ⟨other, otherFound, replacement⟩ := rewrites.replaced place instr only.found
  rw [found, Option.some.injEq] at otherFound
  subst otherFound
  have writes := only.writes
  cases replacement with
  | kept =>
    obtain rfl : dest = register := by simpa [Instr.def?] using writes
    exact .constant only
  | folded holds result =>
    obtain rfl : dest = register := by simpa [Instr.def?] using writes
    exact .folded only holds result

theorem Rewritten.eq_move {dest source : Reg} (found : rewritten.code[place]? = some (.move dest source)) :
    instr = .move register source := by
  obtain ⟨other, otherFound, replacement⟩ := rewrites.replaced place instr only.found
  rw [found, Option.some.injEq] at otherFound
  subst otherFound
  cases replacement
  obtain rfl : dest = register := by simpa [Instr.def?] using only.writes
  rfl

end

theorem Rewritten.isMachine_eq (rewrites : function.Rewritten rewritten) (register : Reg) :
    rewritten.isMachine register = function.isMachine register := by
  simp [isMachine, info, rewrites.registers]

theorem Rewritten.isDead_eq (rewrites : function.Rewritten rewritten) (register : Reg) :
    rewritten.isDead register = function.isDead register := by
  simp only [isDead, rewrites.isMachine_eq, rewrites.index]

theorem smallConstant?_cases (found : function.smallConstant? moves register = some value) :
    function.isMachine register = false ∧ ∃ place, function.index.definitions register = [place] ∧
      ((∃ dest, function.code[place]? = some (.constant dest value)) ∨
        ∃ dest source fewer, moves = fewer + 1 ∧ function.code[place]? = some (.move dest source) ∧
          function.smallConstant? fewer source = some value) := by
  rw [smallConstant?.eq_def] at found
  dsimp only at found
  split at found
  · simp at found
  · rename_i isVirtual
    refine ⟨by simpa using isVirtual, ?_⟩
    split at found
    · rename_i place definitions
      refine ⟨place, definitions, ?_⟩
      split at found
      · rename_i dest constant placed
        have same : constant = value := by simpa using (Option.ite_none_right_eq_some.mp found).2
        exact Or.inl ⟨dest, same ▸ placed⟩
      · rename_i dest source fewer placed
        exact Or.inr ⟨dest, source, fewer, rfl, placed, found⟩
      · simp at found
    · simp at found

theorem Rewritten.holdsConstant (indexed : function.Indexed) (rewrites : function.Rewritten rewritten)
    (found : rewritten.smallConstant? moves register = some value) :
    function.HoldsConstant register value := by
  induction moves generalizing register with
  | zero =>
    obtain ⟨isVirtual, place, definitions, ⟨dest, placed⟩ | ⟨_, _, _, none, _⟩⟩ := smallConstant?_cases found
    · rw [rewrites.isMachine_eq] at isVirtual
      rw [rewrites.index] at definitions
      obtain ⟨instr, only⟩ := onlyWritten_of_definitions indexed isVirtual definitions
      exact rewrites.holdsConstant_of_constant only placed
    · omega
  | succ moves ih =>
    obtain ⟨isVirtual, place, definitions, shape⟩ := smallConstant?_cases found
    rw [rewrites.isMachine_eq] at isVirtual
    rw [rewrites.index] at definitions
    obtain ⟨instr, only⟩ := onlyWritten_of_definitions indexed isVirtual definitions
    rcases shape with ⟨dest, placed⟩ | ⟨dest, source, fewer, count, placed, inner⟩
    · exact rewrites.holdsConstant_of_constant only placed
    · obtain rfl : moves = fewer := by omega
      exact .move (rewrites.eq_move only placed ▸ only) (ih inner)

theorem Rewritten.replacement (indexed : function.Indexed) (wellFormed : function.WellFormed)
    (rewrites : function.Rewritten rewritten)
    (found : function.code[place]? = some instr) (simpler : rewritten.simpler? place instr = some other) :
    function.Replacement place instr other := by
  have member : instr ∈ function.code := Array.mem_of_getElem? found
  cases instr with
  | move dest source =>
    simp only [simpler?, rewrites.isDead_eq] at simpler
    split at simpler
    · rename_i reason
      cases simpler
      simp only [Bool.or_eq_true, decide_eq_true_eq] at reason
      rcases reason with unread | rfl
      · exact .dead rfl rfl unread
      · exact .self _
    · simp at simpler
  | constant dest value =>
    simp only [simpler?, rewrites.isDead_eq] at simpler
    split at simpler
    · rename_i unread
      cases simpler
      exact .dead rfl rfl unread
    · simp at simpler
  | alu op dest left right =>
    simp only [simpler?, rewrites.isDead_eq] at simpler
    split at simpler
    · rename_i unread
      cases simpler
      exact .dead rfl rfl unread
    · split at simpler
      · rename_i value known
        cases simpler
        exact .right (rewrites.holdsConstant indexed known)
      · split at simpler
        · rename_i value known
          split at simpler
          · rename_i commutes
            cases simpler
            exact .left (rewrites.holdsConstant indexed known) commutes
          · simp at simpler
        · simp at simpler
  | aluImm op dest left right =>
    simp only [simpler?, rewrites.isDead_eq] at simpler
    split at simpler
    · rename_i unread
      cases simpler
      exact .dead rfl rfl unread
    · split at simpler
      · rename_i constant known
        obtain ⟨value, result, rfl⟩ := Option.map_eq_some_iff.mp simpler
        exact .folded (rewrites.holdsConstant indexed known) result
      · simp at simpler
  | jump label =>
    simp only [simpler?, rewrites.index] at simpler
    split at simpler
    · rename_i placed
      cases simpler
      have inside := wellFormed.labels _ member label rfl
      exact .following ((indexed.position label inside).symm.trans placed)
    · simp at simpler
  | label label =>
    simp only [simpler?, rewrites.index] at simpler
    split at simpler
    · cases simpler
      have inside := wellFormed.labels _ member label rfl
      refine .unused ?_
      intro other otherMember jumps
      have counted := (indexed.jumpCount_pos_iff inside).mpr ⟨other, otherMember, jumps⟩
      omega
    · simp at simpler
  | _ => simp [simpler?] at simpler

theorem Rewritten.simplifyAt (indexed : function.Indexed) (wellFormed : function.WellFormed)
    (rewrites : function.Rewritten rewritten) (untouched : rewritten.code[place]? = function.code[place]?) :
    function.Rewritten (rewritten.simplifyAt place) ∧
      ∀ other, place ≠ other → (rewritten.simplifyAt place).code[other]? = rewritten.code[other]? := by
  rw [Function.simplifyAt]
  split
  · rename_i other simplified
    obtain ⟨instr, found, simpler⟩ := Option.bind_eq_some_iff.mp simplified
    have modified : ∀ at_, (rewritten.code.modify place fun _ => other)[at_]? =
        if place = at_ then some other else rewritten.code[at_]? := by
      intro at_
      rw [Array.getElem?_modify]
      split
      · rename_i same
        rw [← same, found, Option.map_some]
      · rfl
    refine ⟨⟨rewrites.registers, rewrites.labelCount, rewrites.index, by simp [rewrites.size], ?_⟩, ?_⟩
    · intro at_ old oldFound
      rw [modified]
      split
      · subst at_
        rw [untouched, oldFound, Option.some.injEq] at found
        subst old
        exact ⟨other, rfl, rewrites.replacement indexed wellFormed oldFound simpler⟩
      · exact rewrites.replaced at_ old oldFound
    · intro at_ different
      rw [modified, if_neg different]
  · exact ⟨rewrites, fun _ _ => rfl⟩

theorem simplifyOnce_rewritten (indexed : function.Indexed) (wellFormed : function.WellFormed) :
    function.Rewritten function.simplifyOnce := by
  have visited : ∀ count, function.Rewritten ((List.range count).foldl Function.simplifyAt function) ∧
      ∀ place, count ≤ place →
        ((List.range count).foldl Function.simplifyAt function).code[place]? = function.code[place]? := by
    intro count
    induction count with
    | zero => exact ⟨.refl function, fun _ _ => rfl⟩
    | succ count ih =>
      rw [List.range_succ, List.foldl_append, List.foldl_cons, List.foldl_nil]
      obtain ⟨rewrites, untouched⟩ := ih
      obtain ⟨next, others⟩ := rewrites.simplifyAt indexed wellFormed (untouched count (Nat.le_refl count))
      refine ⟨next, ?_⟩
      intro place later
      rw [others place (by omega), untouched place (by omega)]
  exact (visited function.code.size).1

theorem Rewritten.wellFormed (wellFormed : function.WellFormed) (rewrites : function.Rewritten rewritten) :
    rewritten.WellFormed := by
  constructor
  case machine =>
    intro register small
    rw [rewrites.isMachine_eq]
    exact wellFormed.machine register small
  case labels =>
    intro instr member label labelled
    obtain ⟨place, found⟩ := Array.mem_iff_getElem?.mp member
    have inside : place < function.code.size := by
      rw [← rewrites.size]
      exact (Array.getElem?_eq_some_iff.mp found).1
    obtain ⟨other, otherFound, replacement⟩ :=
      rewrites.replaced place _ (Array.getElem?_eq_getElem inside)
    rw [found, Option.some.injEq] at otherFound
    subst other
    rw [rewrites.labelCount]
    refine wellFormed.labels _ (Array.getElem_mem inside) label ?_
    generalize function.code[place] = old at replacement
    cases replacement with
    | kept => exact labelled
    | dead | self | right | left | folded | following | unused => simp [Instr.label?] at labelled

theorem Rewritten.labelPlace?_eq (rewrites : function.Rewritten rewritten) {label : Nat}
    (member : instr ∈ function.code) (jumps : instr.target? = some label) :
    labelPlace? rewritten.code label = labelPlace? function.code label := by
  refine labelPlace?_congr rewrites.size ?_
  intro place
  by_cases inside : place < function.code.size
  · obtain ⟨other, otherFound, replacement⟩ := rewrites.replaced place _ (Array.getElem?_eq_getElem inside)
    rw [otherFound, Array.getElem?_eq_getElem inside, Option.some.injEq, Option.some.injEq]
    generalize function.code[place] = old at replacement
    cases replacement with
    | kept => rfl
    | dead pure => cases old <;> simp_all [Instr.isPure]
    | unused unused =>
      have different := unused instr member
      simp only [reduceCtorEq, Instr.label.injEq, false_iff]
      rintro rfl
      exact different jumps
    | self | right | left | folded | following => simp
  · have outside : function.code.size ≤ place := by omega
    rw [Array.getElem?_eq_none outside, Array.getElem?_eq_none (rewrites.size ▸ outside)]

theorem not_isDead_of_use (indexed : function.Indexed) (member : instr ∈ function.code)
    (used : register ∈ instr.uses) : function.isDead register = false := by
  by_contra dead
  simp only [isDead, Bool.not_eq_false, Bool.and_eq_true, Bool.not_eq_eq_eq_not, decide_eq_true_eq] at dead
  have counted := (indexed.useCount_pos_iff (lt_of_isVirtual dead.1)).mpr ⟨instr, member, used⟩
  omega

theorem WellFormed.not_isDead (wellFormed : function.WellFormed)
    (small : register < Reg.machineCount) : function.isDead register = false := by
  simp [isDead, wellFormed.machine register small]

structure InStep (function : Function) (written otherWritten : Reg → Prop) (state other : MachineState μ) : Prop where
  place : other.place = state.place
  memory : other.memory = state.memory
  trace : other.trace = state.trace
  reads : ∀ register : Nat, function.isDead register = false → other.read register = state.read register
  written : ∀ register : Nat, Reg.machineCount ≤ register → function.isDead register = false → written register →
    otherWritten register

theorem Replacement.uses_subset (replacement : function.Replacement place instr other)
    (used : register ∈ other.uses) : register ∈ instr.uses := by
  cases replacement <;> simp_all [Instr.uses]

section

variable (indexed : function.Indexed) (wellFormed : function.WellFormed) (rewrites : function.Rewritten rewritten)
  {first : MachineState μ} {steps : Nat} {written otherWritten : Reg → Prop} {state other : MachineState μ}
  (careful : CarefulRun around function.code first steps written state)
  (inStep : function.InStep written otherWritten state other)
  {instr : Instr} (found : function.code[state.place]? = some instr)
  (reads : ∀ register : Nat, register ∈ instr.uses → register < Reg.machineCount ∨ written register)

include indexed wellFormed rewrites careful inStep found reads

theorem Replacement.effect_cases {replacement : Instr} (replaced : function.Replacement state.place instr replacement)
    {result : Effect μ} (done : effect around (labelPlace? function.code) state instr = some result) :
    (effect around (labelPlace? rewritten.code) other replacement = some result ∧ replacement.def? = instr.def?) ∨
      (replacement = .nop ∧ ∃ dest value, result = .plain state (.set dest value) ∧ instr.def? = some dest ∧
        (function.isDead dest = true ∨
          (value = state.read dest ∧ (dest < Reg.machineCount ∨ written dest)))) := by
  have member : instr ∈ function.code := Array.mem_of_getElem? found
  have same : ∀ register ∈ instr.uses, other.read register = state.read register :=
    fun register used => inStep.reads register (not_isDead_of_use indexed member used)
  have plain : ∀ change, Effect.plain other change = Effect.plain state change := by
    simp [Effect.plain, inStep.place, inStep.memory]
  have constant : ∀ {register : Nat} {value : Int32}, function.HoldsConstant register value →
      register ∈ instr.uses → state.read register = value := by
    intro register value holds used
    exact holds.read wellFormed careful
      ((reads register used).resolve_left (Nat.not_lt.mpr (wellFormed.le_of_isVirtual holds.isVirtual)))
  cases replaced with
  | kept =>
    have kept : effect around (labelPlace? rewritten.code) other (instr.mapRegisters id) =
        (effect around (labelPlace? function.code) state instr).map (Effect.rename id id) :=
      effect_mapRegisters (congrArg (· + 1) inStep.place)
        (fun label jumps => by simpa using rewrites.labelPlace?_eq member jumps) inStep.memory same (fun _ _ => rfl)
    refine Or.inl ⟨?_, rfl⟩
    rw [done] at kept
    simpa using kept
  | @dead _ dest pure writes unread =>
    refine Or.inr ⟨rfl, dest, ?_⟩
    cases instr <;> simp only [Instr.isPure, Bool.false_eq_true] at pure
    all_goals
      cases writes
      simp only [effect, Option.some.injEq, Option.map_eq_some_iff] at done
    · exact ⟨_, done.symm, rfl, Or.inl unread⟩
    · exact ⟨_, done.symm, rfl, Or.inl unread⟩
    · obtain ⟨value, _, rfl⟩ := done
      exact ⟨value, rfl, rfl, Or.inl unread⟩
    · obtain ⟨value, _, rfl⟩ := done
      exact ⟨value, rfl, rfl, Or.inl unread⟩
  | self dest =>
    cases done
    exact Or.inr ⟨rfl, dest, _, rfl, rfl, Or.inr ⟨rfl, reads dest (by simp [Instr.uses])⟩⟩
  | @right op dest left right value holds =>
    refine Or.inl ⟨?_, rfl⟩
    have known := constant holds (by simp [Instr.uses])
    have sameLeft := same left (by simp [Instr.uses])
    simpa only [effect, known, sameLeft, plain] using done
  | @left op dest left right value holds commutes =>
    refine Or.inl ⟨?_, rfl⟩
    have known := constant holds (by simp [Instr.uses])
    have sameRight := same right (by simp [Instr.uses])
    have integer := AluOp.isInteger_of_isCommutative commutes
    simp only [effect, known, sameRight, plain, around.operate_integer integer] at done ⊢
    rw [AluOp.evaluate_comm commutes]
    exact done
  | @folded op dest left constant_ right value holds folded =>
    refine Or.inl ⟨?_, rfl⟩
    have known := constant holds (by simp [Instr.uses])
    simp only [effect, known, around.operate_integer (AluOp.isInteger_of_evaluate folded), folded] at done
    simpa only [effect, plain, Option.map_some] using done
  | @following label placed =>
    refine Or.inl ⟨?_, rfl⟩
    simp only [effect, placed] at done
    rw [← done]
    simp [effect, Effect.plain, Effect.jump, inStep.place, inStep.memory]
  | unused =>
    refine Or.inl ⟨?_, rfl⟩
    rw [← done]
    simp only [effect, plain]

theorem InStep.step {next : MachineState μ} (taken : step around function.code state = some next) :
    ∃ replacement otherNext, rewritten.code[other.place]? = some replacement ∧
      (∀ register : Nat, register ∈ replacement.uses → register < Reg.machineCount ∨ otherWritten register) ∧
      Ir.step around rewritten.code other = some otherNext ∧
      function.InStep (fun register => written register ∨ instr.def? = some register)
        (fun register => otherWritten register ∨ replacement.def? = some register) next otherNext := by
  have member : instr ∈ function.code := Array.mem_of_getElem? found
  obtain ⟨replacement, otherFound, replaced⟩ := rewrites.replaced state.place instr found
  rw [← inStep.place] at otherFound
  have otherReads : ∀ register : Nat, register ∈ replacement.uses →
      register < Reg.machineCount ∨ otherWritten register := by
    intro register used
    have usedBefore := replaced.uses_subset used
    by_cases small : register < Reg.machineCount
    · exact Or.inl small
    · exact Or.inr (inStep.written register (by omega) (not_isDead_of_use indexed member usedBefore)
        ((reads register usedBefore).resolve_left small))
  rw [step_eq found] at taken
  obtain ⟨result, done, rfl⟩ := Option.map_eq_some_iff.mp taken
  rcases Replacement.effect_cases indexed wellFormed rewrites careful inStep found reads replaced done with
    ⟨same, sameDef⟩ | ⟨rfl, dest, value, rfl, writes, harmless⟩
  · refine ⟨replacement, result.apply other, otherFound, otherReads, by rw [step_eq otherFound, same]; rfl, ?_⟩
    refine ⟨rfl, rfl, congrArg (result.events ++ ·) inStep.trace, ?_, ?_⟩
    · intro register alive
      by_cases zero : register = Reg.zero
      · rw [zero, MachineState.read_zero, MachineState.read_zero]
      · have before := inStep.reads register alive
        rw [MachineState.read_of_ne _ zero, MachineState.read_of_ne _ zero] at before
        rw [Effect.read_apply _ _ zero, Effect.read_apply _ _ zero]
        cases result.change with
        | keep => exact before
        | set dest value => simp [Change.apply, before]
        | clobber contents => simp [Change.apply, before]
    · rintro register large alive (before | now)
      · exact Or.inl (inStep.written register large alive before)
      · exact Or.inr (sameDef ▸ now)
  · refine ⟨.nop, Effect.apply other (.plain other .keep), otherFound, otherReads, step_eq otherFound, ?_⟩
    refine ⟨congrArg (· + 1) inStep.place, inStep.memory, inStep.trace, ?_, ?_⟩
    · intro register alive
      have kept : (Effect.apply other (.plain other .keep)).read register = other.read register := rfl
      rw [kept, inStep.reads register alive]
      by_cases zero : register = Reg.zero
      · rw [zero, MachineState.read_zero, MachineState.read_zero]
      · rw [Effect.read_apply _ _ zero, MachineState.read_of_ne _ zero]
        simp only [Effect.plain, Change.apply]
        split
        · rename_i same
          subst same
          rcases harmless with dead | ⟨unchanged, _⟩
          · simp [alive] at dead
          · rw [unchanged, MachineState.read_of_ne _ zero]
        · rfl
    · rintro register large alive (before | now)
      · exact Or.inl (inStep.written register large alive before)
      · obtain rfl : dest = register := by simpa [writes] using now
        rcases harmless with dead | ⟨_, small | before⟩
        · simp [alive] at dead
        · exact absurd small (Nat.not_lt.mpr large)
        · exact Or.inl (inStep.written dest large alive before)

end

theorem Rewritten.preserves (indexed : function.Indexed) (wellFormed : function.WellFormed)
    (rewrites : function.Rewritten rewritten) : Preserves around function.code rewritten.code := by
  have runs : ∀ {registers : Reg → Int32} {memory : μ} {steps : Nat} {written : Reg → Prop} {state : MachineState μ},
      CarefulRun around function.code (.entry registers memory) steps written state →
      ∃ otherWritten other, CarefulRun around rewritten.code (.entry registers memory) steps otherWritten other ∧
        function.InStep written otherWritten state other := by
    intro registers memory steps written state careful
    induction careful with
    | start => exact ⟨_, _, .start, rfl, rfl, rfl, fun _ _ => rfl, fun _ _ _ never => never⟩
    | step before found reads taken ih =>
      obtain ⟨otherWritten, other, run, inStep⟩ := ih
      obtain ⟨replacement, next, otherFound, otherReads, otherTaken, nextInStep⟩ :=
        inStep.step indexed wellFormed rewrites before found reads taken
      exact ⟨_, next, .step run otherFound otherReads otherTaken, nextInStep⟩
  refine ⟨1, ?_⟩
  intro registers memory steps written state careful
  obtain ⟨otherWritten, other, run, inStep⟩ := runs careful
  refine ⟨steps, otherWritten, other, run, ⟨inStep.memory, inStep.trace, ?_, ?_⟩, by omega⟩
  · exact fun register small => inStep.reads register (wellFormed.not_isDead small)
  · intro returns found
    obtain ⟨replacement, otherFound, replaced⟩ := rewrites.replaced state.place _ found
    rw [inStep.place, otherFound]
    cases replaced with
    | kept => rfl
    | dead pure => simp [Instr.isPure] at pure

theorem rebuild_wellFormed (wellFormed : source.WellFormed) (done : source.rebuild = .ok function) :
    function.WellFormed := by
  rw [rebuild_eq done]
  exact ⟨wellFormed.machine, fun instr member => wellFormed.labels instr (Array.mem_filter.mp member).1⟩

theorem rebuild_preserves (done : source.rebuild = .ok function) :
    Preserves around source.code function.code := by
  rw [rebuild_eq done]
  exact filter_preserves source.code

theorem simplifyWithin_preserves (bound : Nat) {optimised : Function} (wellFormed : source.WellFormed)
    (done : source.simplifyWithin bound = .ok optimised) : Preserves around source.code optimised.code := by
  induction bound generalizing source with
  | zero =>
    cases done
    exact .refl _
  | succ bound ih =>
    simp only [simplifyWithin] at done
    split at done
    · simp at done
    · rename_i indexed rebuilt
      have packed : Preserves around source.code indexed.code := rebuild_preserves rebuilt
      split at done
      · cases done
        exact packed
      · have indexedWellFormed := rebuild_wellFormed wellFormed rebuilt
        have rewrites := simplifyOnce_rewritten (rebuild_indexed rebuilt) indexedWellFormed
        have pass : Preserves around indexed.code indexed.simplifyOnce.code :=
          rewrites.preserves (rebuild_indexed rebuilt) indexedWellFormed
        exact packed.trans (pass.trans (ih (rewrites.wellFormed indexedWellFormed) done))

/-- Simplified code has the calls, loads and stores, the memory and the machine registers of every careful run, and
runs on for ever if the code does. -/
theorem simplify_preserves_runs (around : Surroundings μ) {source optimised : Function} (wellFormed : source.WellFormed)
    (done : source.simplify = .ok optimised) (registers : Reg → Int32) (memory : μ) :
    (∀ steps written state, CarefulRun around source.code (.entry registers memory) steps written state →
      ∃ otherSteps otherWritten other,
        CarefulRun around optimised.code (.entry registers memory) otherSteps otherWritten other ∧
          other.trace = state.trace ∧ other.memory = state.memory ∧
          (∀ register < Reg.machineCount, other.read register = state.read register) ∧
          ∀ returns, source.code[state.place]? = some (.ret returns) →
            optimised.code[other.place]? = some (.ret returns)) ∧
      ((∀ steps, ∃ written state, CarefulRun around source.code (.entry registers memory) steps written state) →
        ∀ steps, ∃ written state, CarefulRun around optimised.code (.entry registers memory) steps written state) := by
  have preserves : Preserves around source.code optimised.code := simplifyWithin_preserves _ wellFormed done
  refine ⟨?_, preserves.infinite⟩
  obtain ⟨factor, runs⟩ := preserves
  intro steps written state careful
  obtain ⟨otherSteps, otherWritten, other, run, agree, _⟩ := runs registers memory steps written state careful
  exact ⟨otherSteps, otherWritten, other, run, agree.trace, agree.memory, agree.machine, agree.returns⟩

def constantSum : Function :=
  { empty "sum" true with
    code := #[.start, .constant 32 2, .constant 33 3, .alu .addI 34 32 33, .move Reg.result 34, .ret true]
    registers := (empty "sum" true).registers ++ #[⟨"T0", .temp⟩, ⟨"T1", .temp⟩, ⟨"T2", .temp⟩] }

theorem simplify_preserves_runs_constantSum :
    ∃ optimised, constantSum.simplify = .ok optimised ∧ ∃ steps written state,
      CarefulRun .none optimised.code (.entry (fun _ => 0) ()) steps written state ∧
        state.read Reg.result = 5 ∧ optimised.code[state.place]? = some (.ret true) := by
  have wellFormed : constantSum.WellFormed := by
    refine ⟨by decide, ?_⟩
    simp [constantSum, Instr.label?]
  have accepted : constantSum.simplify.isOk = true := by decide +kernel
  cases done : constantSum.simplify with
  | error problem => simp [done, Except.toBool] at accepted
  | ok optimised =>
    have entered : constantSum.code[0]? = some .start := rfl
    have two : constantSum.code[1]? = some (.constant 32 2) := rfl
    have three : constantSum.code[2]? = some (.constant 33 3) := rfl
    have added : constantSum.code[3]? = some (.alu .addI 34 32 33) := rfl
    have copied : constantSum.code[4]? = some (.move Reg.result 34) := rfl
    have careful : CarefulRun .none constantSum.code (.entry (fun _ => 0) ()) 5 _ _ :=
      .step (.step (.step (.step (.step .start entered (by simp [Instr.uses]) rfl) two (by simp [Instr.uses]) rfl)
        three (by simp [Instr.uses]) rfl) added (by simp [Instr.uses, Instr.def?]) rfl) copied
        (by simp [Instr.uses, Instr.def?]) rfl
    obtain ⟨steps, written, state, run, _, _, machine, returns⟩ :=
      (simplify_preserves_runs .none wellFormed done (fun _ => 0) ()).1 _ _ _ careful
    exact ⟨optimised, rfl, steps, written, state, run, machine Reg.result (by decide), returns true rfl⟩

end Function

end FplCompiler.Ir

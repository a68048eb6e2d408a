import FplCompiler.Proofs.Interference

/-!
Registers that interfere get different machine registers. The invariant of an allocation is that a machine register has
taken over the neighbours of every register that it holds, so that a register which is not among them interferes with
none of these.
-/

namespace FplCompiler.Ir

variable {final : Allocation} {graph : Interference} {register machine home : Nat}

namespace Allocation

variable {state : Allocation} {second first : Allocation}

/-- One state after another: registers without a home get allocatable machine registers that they do not interfere
with. -/
inductive Reaches (first : Allocation) : Allocation → Prop
  | refl : Reaches first first
  | assign {state : Allocation} {register machine : Nat} (reaches : Reaches first state)
      (free : state.home? register = none) (range : 1 ≤ machine ∧ machine ≤ 28)
      (clear : ¬ register ∈ state.interference.neighbours machine) : Reaches first (state.assign register machine)

theorem Reaches.trans {third : Allocation} (lower : Reaches first second) (upper : Reaches second third) :
    Reaches first third := by
  induction upper with
  | refl => exact lower
  | assign _ free range clear ih => exact ih.assign free range clear

theorem join_reaches (state : Allocation) (register other : Reg) : Reaches state (state.join register other) := by
  unfold join
  split
  next machine free given =>
    split
    next checked =>
      simp only [isAllocatable, Bool.and_eq_true, decide_eq_true_eq, Bool.not_eq_eq_eq_not] at checked
      exact .assign .refl free checked.1 fun member => Bool.false_ne_true (checked.2.symm.trans member)
    next => exact .refl
  next => exact .refl

theorem joinMoves_reaches (moves : List (Reg × Reg)) (state : Allocation) : Reaches state (joinMoves moves state) := by
  induction moves generalizing state with
  | nil => exact .refl
  | cons move rest ih => exact ((join_reaches state _ _).trans (join_reaches _ _ _)).trans (ih _)

theorem coalesce_reaches (moves : List (Reg × Reg)) (state : Allocation) : Reaches state (state.coalesce moves) := by
  unfold coalesce
  generalize state.assigned.size + 1 = bound
  induction bound generalizing state with
  | zero => exact .refl
  | succ bound ih =>
    rw [coalesceWithin]
    split
    · exact .refl
    · exact (joinMoves_reaches moves state).trans (ih _)

theorem home?_assign (register machine other : Nat) :
    (state.assign register machine).home? other =
      if register = other ∧ other < state.assigned.size then some machine else state.home? other := by
  simp only [home?, assign]
  by_cases inside : other < state.assigned.size
  · simp [getD_modify _ _ _ _ _ inside, inside]
  · simp [inside]

theorem neighbours_assign (register machine other : Nat) :
    (state.assign register machine).interference.neighbours other =
      if machine = other ∧ other < state.interference.size then
        (state.interference.neighbours other).union (state.interference.neighbours register)
      else state.interference.neighbours other := by
  simp only [assign, Interference.neighbours]
  by_cases inside : other < state.interference.size
  · simp [getD_modify _ _ _ _ _ inside, inside]
  · simp [inside]

theorem lt_of_home? (given : state.home? register = some home) :
    register < state.assigned.size := by
  by_contra outside
  simp [home?, outside] at given

theorem lt_of_mem_neighbours {other : Nat} (member : other ∈ graph.neighbours register) :
    register < graph.size := by
  by_contra outside
  simp only [Interference.neighbours, Array.getD_eq_getD_getElem?, Array.getElem?_eq_none (Nat.not_lt.mp outside)] at member
  exact absurd member (NatSet.not_mem_empty other)

theorem Reaches.size (reaches : Reaches first second) :
    second.assigned.size = first.assigned.size := by
  induction reaches with
  | refl => rfl
  | assign _ _ _ _ ih => simpa [Allocation.assign] using ih

def Extends (first second : Allocation) : Prop :=
  ∀ register home, first.home? register = some home → second.home? register = some home

theorem Reaches.extends (reaches : Reaches first second) : Extends first second := by
  induction reaches with
  | refl => exact fun _ _ given => given
  | assign _ free _ _ ih =>
    intro other home given
    rw [home?_assign, if_neg, ih other home given]
    rintro ⟨rfl, -⟩
    rw [ih _ home given] at free
    cases free

theorem mem_allocatable : machine ∈ allocatable ↔ 1 ≤ machine ∧ machine ≤ 28 := by
  simp only [allocatable, List.mem_map, List.mem_range]
  constructor
  · omega
  · rintro ⟨lower, upper⟩
    exact ⟨machine - 1, by omega, by omega⟩

/-- Colouring ends with a home for each register, or at a register that all machine registers interfere with. -/
theorem color_reaches {moves : List (Reg × Reg)} {order : List Reg} (state : Allocation) :
    (∀ final, color moves order state = .ok final → Reaches state final ∧
      ∀ register ∈ order, register < state.assigned.size → (final.home? register).isSome = true) ∧
    ∀ register final, color moves order state = .error (register, final) → Reaches state final ∧ register ∈ order ∧
      ∀ machine : Nat, 1 ≤ machine ∧ machine ≤ 28 → register ∈ final.interference.neighbours machine := by
  induction order generalizing state with
  | nil =>
    simp only [color, Except.ok.injEq, reduceCtorEq, false_implies, implies_true, and_true]
    rintro final rfl
    exact ⟨.refl, by simp⟩
  | cons register rest ih =>
    rw [color]
    split
    next given =>
      obtain ⟨home, held⟩ := Option.isSome_iff_exists.mp given
      refine ⟨fun final done => ?_, fun other final failed => ?_⟩
      · obtain ⟨reaches, others⟩ := (ih state).1 final done
        refine ⟨reaches, List.forall_mem_cons.mpr ⟨fun _ => ?_, others⟩⟩
        simp [reaches.extends register home held]
      · obtain ⟨reaches, member, blocked⟩ := (ih state).2 other final failed
        exact ⟨reaches, List.mem_cons_of_mem _ member, blocked⟩
    next missing =>
      have free : state.home? register = none := by simpa using missing
      split
      next none =>
        refine ⟨by simp, fun other final failed => ?_⟩
        obtain ⟨rfl, rfl⟩ := Prod.mk.inj (Except.error.inj failed)
        have blocked (machine : Nat) (range : 1 ≤ machine ∧ machine ≤ 28) :
            (state.interference.neighbours machine).contains register = true := by
          simpa using List.find?_eq_none.mp none machine (mem_allocatable.mpr range)
        exact ⟨.refl, List.mem_cons_self, blocked⟩
      next machine chosen =>
        have clear : (state.interference.neighbours machine).contains register = false := by
          simpa using List.find?_some chosen
        have assigned : Reaches state (state.assign register machine) :=
          .assign .refl free (mem_allocatable.mp (List.mem_of_find?_eq_some chosen)) fun member =>
            Bool.false_ne_true (clear.symm.trans member)
        have coalesced := coalesce_reaches moves (state.assign register machine)
        have next := ih ((state.assign register machine).coalesce moves)
        refine ⟨fun final done => ?_, fun other final failed => ?_⟩
        · obtain ⟨reaches, others⟩ := next.1 final done
          refine ⟨(assigned.trans coalesced).trans reaches, List.forall_mem_cons.mpr ⟨fun bound => ?_, ?_⟩⟩
          · have held : (state.assign register machine).home? register = some machine := by
              rw [home?_assign, if_pos ⟨rfl, bound⟩]
            simp [(coalesced.trans reaches).extends register machine held]
          · rwa [(assigned.trans coalesced).size] at others
        · obtain ⟨reaches, member, blocked⟩ := next.2 other final failed
          exact ⟨(assigned.trans coalesced).trans reaches, List.mem_cons_of_mem _ member, blocked⟩

/-- What an allocation keeps: machine registers hold themselves, other registers are held by those that were given to
them, a machine register has the neighbours of all that it holds and no others, and no two registers that it holds
interfere. -/
structure Consistent (graph : Interference) (state : Allocation) : Prop where
  assignedSize : state.assigned.size = graph.size
  interferenceSize : state.interference.size = graph.size
  machine : ∀ register < Reg.machineCount, register < graph.size → state.home? register = some register
  given : ∀ register home : Nat, Reg.machineCount ≤ register → state.home? register = some home →
    (register, home) ∈ state.steps
  range : ∀ step ∈ state.steps, 1 ≤ step.2 ∧ step.2 ≤ 28
  original : ∀ register, Reg.machineCount ≤ register →
    state.interference.neighbours register = graph.neighbours register
  merged : ∀ home < Reg.machineCount, ∀ other, other ∈ state.interference.neighbours home ↔
    ∃ register, state.home? register = some home ∧ other ∈ graph.neighbours register
  proper : ∀ register other home : Nat, state.home? register = some home → state.home? other = some home →
    register ≠ other → ¬ other ∈ graph.neighbours register

theorem home?_start {registers : Nat} : (start registers graph).home? register =
      if register < registers ∧ register < Reg.machineCount then some register else none := by
  simp only [home?, start]
  by_cases inside : register < registers
  · by_cases machine : register < Reg.machineCount
    · simp [inside]
    · simp [inside]
  · simp [inside]

theorem start_consistent (graph : Interference) : Consistent graph (start graph.size graph) := by
  have homes (register home : Nat) : (start graph.size graph).home? register = some home ↔
      register = home ∧ register < graph.size ∧ register < Reg.machineCount := by
    rw [home?_start]
    grind
  constructor
  case assignedSize => simp [start]
  case interferenceSize => rfl
  case machine => exact fun register small inside => (homes _ _).mpr ⟨rfl, inside, small⟩
  case given => exact fun register home large given => absurd ((homes _ _).mp given).2.2 (Nat.not_lt.mpr large)
  case range => simp [start]
  case original => exact fun _ _ => rfl
  case merged =>
    intro home small other
    constructor
    · exact fun member => ⟨home, (homes _ _).mpr ⟨rfl, lt_of_mem_neighbours member, small⟩, member⟩
    · rintro ⟨register, given, member⟩
      exact ((homes _ _).mp given).1 ▸ member
  case proper =>
    intro register other home given otherGiven different
    exact absurd (((homes _ _).mp given).1.trans ((homes _ _).mp otherGiven).1.symm) different

theorem Consistent.home_range (consistent : Consistent graph state)
    (large : Reg.machineCount ≤ register) (given : state.home? register = some home) : 1 ≤ home ∧ home ≤ 28 :=
  consistent.range _ (consistent.given register home large given)

def Symmetric (graph : Interference) : Prop :=
  ∀ register other : Nat, register < graph.size → other < graph.size →
    (other ∈ graph.neighbours register ↔ register ∈ graph.neighbours other)

theorem Consistent.assign (symmetric : Symmetric graph) (consistent : Consistent graph state)
    (free : state.home? register = none) (range : 1 ≤ machine ∧ machine ≤ 28)
    (clear : ¬ register ∈ state.interference.neighbours machine) : Consistent graph (state.assign register machine) := by
  have small : machine < Reg.machineCount := Nat.lt_of_le_of_lt range.2 (by decide)
  have large : register < graph.size → Reg.machineCount ≤ register := by
    intro inside
    by_contra small
    have held := consistent.machine register (Nat.not_le.mp small) inside
    rw [free] at held
    cases held
  have homes (other home : Nat) : (state.assign register machine).home? other = some home ↔
      (register = other ∧ other < graph.size ∧ machine = home) ∨ state.home? other = some home := by
    rw [home?_assign, consistent.assignedSize]
    grind
  have neighbours (other third : Nat) : third ∈ (state.assign register machine).interference.neighbours other ↔
      third ∈ state.interference.neighbours other ∨
        (machine = other ∧ register < graph.size ∧ third ∈ graph.neighbours register) := by
    have taken : third ∈ state.interference.neighbours register ↔ register < graph.size ∧
        third ∈ graph.neighbours register := by
      constructor
      · intro member
        have inside := consistent.interferenceSize ▸ lt_of_mem_neighbours member
        exact ⟨inside, consistent.original register (large inside) ▸ member⟩
      · exact fun both => consistent.original register (large both.1) ▸ both.2
    rw [neighbours_assign, consistent.interferenceSize]
    split
    next same => simp [same.1, taken]
    next outside =>
      have none : machine = other → ¬ register < graph.size := fun same inside => by
        omega
      simp only [iff_self_or]
      exact fun both => absurd both.2.1 (none both.1)
  have apart (other : Nat) (given : state.home? other = some machine) : ¬ register ∈ graph.neighbours other :=
    fun member => clear ((consistent.merged machine small register).mpr ⟨other, given, member⟩)
  constructor
  case assignedSize => simpa [Allocation.assign] using consistent.assignedSize
  case interferenceSize => simpa [Allocation.assign] using consistent.interferenceSize
  case machine => exact fun other small inside => (homes other other).mpr (.inr (consistent.machine other small inside))
  case given =>
    intro other home otherLarge given
    refine List.mem_append.mpr ?_
    rcases (homes other home).mp given with ⟨rfl, -, rfl⟩ | old
    · exact .inr (List.mem_singleton.mpr rfl)
    · exact .inl (consistent.given other home otherLarge old)
  case range => exact List.forall_mem_append.mpr ⟨consistent.range, List.forall_mem_singleton.mpr range⟩
  case original =>
    intro other otherLarge
    rw [neighbours_assign, if_neg (by omega)]
    exact consistent.original other otherLarge
  case merged =>
    intro home homeSmall third
    rw [neighbours, consistent.merged home homeSmall]
    grind
  case proper =>
    intro first second home firstGiven secondGiven different
    rcases (homes first home).mp firstGiven with ⟨rfl, inside, rfl⟩ | firstOld
    · rcases (homes second machine).mp secondGiven with ⟨rfl, -⟩ | secondOld
      · exact absurd rfl different
      · have otherInside := consistent.assignedSize ▸ lt_of_home? secondOld
        exact fun member => apart second secondOld ((symmetric register second inside otherInside).mp member)
    · rcases (homes second home).mp secondGiven with ⟨rfl, -, rfl⟩ | secondOld
      · exact apart first firstOld
      · exact consistent.proper first second home firstOld secondOld different

theorem Consistent.reaches (symmetric : Symmetric graph) (consistent : Consistent graph state)
    (reaches : Reaches state final) : Consistent graph final := by
  induction reaches with
  | refl => exact consistent
  | assign _ free range clear ih => exact ih.assign symmetric free range clear

end Allocation

namespace Function

variable {function : Function} {live : LiveMap}

theorem mem_coloringOrder :
    register ∈ function.coloringOrder graph ↔
      register < function.registers.size ∧ Reg.machineCount ≤ register ∧
        (0 < function.index.useCount register ∨ function.index.definitions register ≠ []) := by
  simp only [coloringOrder, List.mem_map, List.mem_mergeSort, List.mem_filter, List.mem_range, Bool.and_eq_true,
    Bool.or_eq_true, decide_eq_true_eq, Bool.not_eq_eq_eq_not, Bool.not_true, List.isEmpty_eq_false_iff]
  constructor
  · rintro ⟨_, ⟨found, ⟨bound, large, needed⟩, rfl⟩, rfl⟩
    exact ⟨bound, large, needed⟩
  · rintro ⟨bound, large, needed⟩
    exact ⟨_, ⟨register, ⟨bound, large, needed⟩, rfl⟩, rfl⟩

theorem interference_symmetric (function : Function) (live : LiveMap) :
    Allocation.Symmetric (function.interference live) := by
  intro register other inside otherInside
  rw [size_interference] at inside otherInside
  rw [mem_neighbours_interference inside, mem_neighbours_interference otherInside, or_comm]

theorem reached_consistent
    (reaches : (Allocation.start function.registers.size (function.interference live)).Reaches final) :
    Allocation.Consistent (function.interference live) final := by
  refine Allocation.Consistent.reaches (interference_symmetric function live) ?_ reaches
  rw [← size_interference function live]
  exact Allocation.start_consistent _

/-- An allocation that succeeds gives a home to each register that is needed; one that fails is stuck at a register. -/
theorem allocation_reaches (function : Function) (live : LiveMap) :
    (∀ final, function.allocation live = .ok final → Allocation.Consistent (function.interference live) final ∧
      ∀ register ∈ function.coloringOrder (function.interference live), (final.home? register).isSome = true) ∧
    ∀ register final, function.allocation live = .error (register, final) →
      Allocation.Consistent (function.interference live) final ∧
      register ∈ function.coloringOrder (function.interference live) ∧
      ∀ machine : Nat, 1 ≤ machine ∧ machine ≤ 28 → register ∈ final.interference.neighbours machine := by
  have started := Allocation.coalesce_reaches function.moves
    (Allocation.start function.registers.size (function.interference live))
  have colored := @Allocation.color_reaches function.moves (function.coloringOrder (function.interference live))
    ((Allocation.start function.registers.size (function.interference live)).coalesce function.moves)
  refine ⟨fun final done => ?_, fun register final failed => ?_⟩
  · obtain ⟨reaches, given⟩ := colored.1 final done
    refine ⟨reached_consistent (started.trans reaches), fun register member => given register member ?_⟩
    rw [started.size]
    simpa [Allocation.start] using (mem_coloringOrder.mp member).1
  · obtain ⟨reaches, member, blocked⟩ := colored.2 register final failed
    exact ⟨reached_consistent (started.trans reaches), member, blocked⟩

theorem allocation_consistent (valid : function.Valid) (indexed : function.Indexed)
    (done : function.allocation live = .ok final) :
    Allocation.Consistent (function.interference live) final ∧
      ∀ instr ∈ function.code, ∀ register : Nat, register ∈ instr.uses ∨ instr.def? = some register →
        (final.home? register).isSome = true := by
  obtain ⟨consistent, given⟩ := (allocation_reaches function live).1 final done
  refine ⟨consistent, ?_⟩
  intro instr inCode register appears
  by_cases small : register < Reg.machineCount
  · rw [consistent.machine register small (size_interference function live ▸ Nat.lt_of_lt_of_le small valid.machine)]
    rfl
  · have large : Reg.machineCount ≤ register := by omega
    rcases appears with used | defined
    · have bound := valid.reads instr inCode register used
      have counted := (indexed.useCount_pos_iff bound).mpr ⟨instr, inCode, used⟩
      exact given register (mem_coloringOrder.mpr ⟨bound, large, Or.inl counted⟩)
    · have bound := valid.writes instr inCode register defined
      obtain ⟨place, found⟩ := Array.mem_iff_getElem?.mp inCode
      have listed := (indexed.definitions register bound place).mpr ⟨instr, found, defined⟩
      exact given register (mem_coloringOrder.mpr ⟨bound, large, Or.inr (List.ne_nil_of_mem listed)⟩)

end Function

end FplCompiler.Ir

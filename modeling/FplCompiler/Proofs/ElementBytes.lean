import FplCompiler.Proofs.Simulation
import FplCompiler.Proofs.WordCounts

/-!
The bytes of the elements of an array. Code that goes to an element by its index and code that gives the element its first
value meet in the same bytes if an element takes one byte or four; then the elements lie apart, inside the block of the
array.
-/

namespace FplCompiler.Codegen

open Ir

variable {index slot number sequence place : Nat} {address offset : Int32} {state : State}

def bytesFrom (address : Int32) (size : Nat) : List Int32 :=
  (List.range size).map fun byte => address + .ofNat byte

def slotAddress (base : Int32) (slot index : Nat) : Int32 :=
  base + .ofNat (slot * index)

theorem mem_bytesFrom_slot {base : Int32} :
    address ∈ bytesFrom (slotAddress base slot index) slot ↔
      ∃ byte < slot, base + .ofNat (slot * index + byte) = address := by
  simp [bytesFrom, slotAddress, Int32.add_assoc]

theorem end_of_slot {byte : Nat} (below : index < number) (inside : byte < slot) :
    slot * index + byte < number * slot :=
  calc slot * index + byte < slot * (index + 1) := by rw [Nat.mul_add_one]; omega
    _ ≤ number * slot := by rw [Nat.mul_comm]; exact Nat.mul_le_mul_right slot below

theorem slot_within (base : Int32) (below : index < number) :
    bytesFrom (slotAddress base slot index) slot ⊆ bytesFrom base (number * slot) := by
  intro address member
  obtain ⟨byte, inside, rfl⟩ := mem_bytesFrom_slot.mp member
  exact List.mem_map.mpr ⟨_, List.mem_range.mpr (end_of_slot below inside), rfl⟩

theorem slots_disjoint {other : Nat} (base : Int32) (below : index < number) (otherBelow : other < number)
    (apart : index ≠ other) (fits : number * slot ≤ 4294967296) :
    (bytesFrom (slotAddress base slot index) slot).Disjoint (bytesFrom (slotAddress base slot other) slot) := by
  intro address member otherMember
  obtain ⟨byte, inside, rfl⟩ := mem_bytesFrom_slot.mp member
  obtain ⟨otherByte, otherInside, same⟩ := mem_bytesFrom_slot.mp otherMember
  have first := end_of_slot below inside
  have second := end_of_slot otherBelow otherInside
  have words := congrArg (fun word => word.toUInt32.toNat) ((Int32.add_right_inj base).mp same)
  simp only [Int32.toUInt32_ofNat', UInt32.toNat_ofNat'] at words
  rw [Nat.mod_eq_of_lt (by omega), Nat.mod_eq_of_lt (by omega)] at words
  have quotients := congrArg (· / slot) words
  simp only [Nat.mul_add_div (Nat.zero_lt_of_lt inside), Nat.div_eq_of_lt inside, Nat.div_eq_of_lt otherInside] at quotients
  omega

section Runs

variable {μ : Type} {around : Surroundings μ} {code : Array Instr} {machine : MachineState μ} {instr : Instr}
  {access? : Option Event}

def Stands (code : Array Instr) (place : Nat) (instrs : List Instr) : Prop :=
  instrs <+: code.toList.drop place

theorem Stands.found {rest : List Instr} (stands : Stands code place (instr :: rest)) :
    code[place]? = some instr := by
  obtain ⟨after, same⟩ := stands
  rw [← Array.getElem?_toList, ← Nat.add_zero place, ← List.getElem?_drop, ← same]
  rfl

theorem Stands.rest {rest : List Instr} (stands : Stands code place (instr :: rest)) :
    Stands code (place + 1) rest := by
  obtain ⟨after, same⟩ := stands
  refine ⟨after, ?_⟩
  rw [← List.drop_drop, ← same]
  rfl

/-- Wherever these instructions stand, they make one access to memory, or stop if that has no answer. -/
def Accesses (around : Surroundings μ) (machine : MachineState μ) (instrs : List Instr) (access? : Option Event) : Prop :=
  ∀ code, Stands code machine.place instrs →
    (run around code instrs.length machine).map MachineState.trace = access?.map (· :: machine.trace)

def load? (around : Surroundings μ) (memory : μ) (size : MemSize) (address : Int32) : Option Event :=
  (around.load memory size address).map (.loaded size address)

def store? (around : Surroundings μ) (memory : μ) (size : MemSize) (address value : Int32) : Option Event :=
  (around.store memory size address value).map fun _ => .stored size address value

theorem accesses_load (size : MemSize) (dest : Reg) {base : Reg} (there : machine.read base = address) :
    Accesses around machine [.load size dest base 0] (load? around machine.memory size address) := by
  intro code stands
  simp [run, step, stands.found, effect, loadEffect, load?, Function.comp_def, Effect.apply, there]

theorem accesses_store (size : MemSize) (value : Reg) {base : Reg} (there : machine.read base + offset = address) :
    Accesses around machine [.store size value base offset]
      (store? around machine.memory size address (machine.read value)) := by
  intro code stands
  simp [run, step, stands.found, effect, storeEffect, store?, Function.comp_def, Effect.apply, there]

theorem Accesses.afterSet {rest : List Instr} {register : Reg} {value : Int32}
    (sets : ∀ target, effect around target machine instr = some (.plain machine (.set register value)))
    (accesses : Accesses around (machine.assign register value) rest access?) :
    Accesses around machine (instr :: rest) access? := by
  intro code stands
  have set : run around code 1 machine = some (machine.assign register value) := run_one stands.found (sets _)
  rw [List.length_cons, Nat.add_comm, run_add, set]
  exact accesses code stands.rest

/-- The code that a step adds. -/
def added {α : Type} (code : Gen α) (state : State) : List Instr :=
  (code state).2.function.code.toList.drop state.function.code.size

def scaled (state : State) (scale : Reg → Instr) : State :=
  state.withTemp.add (scale state.function.registers.size)

theorem accesses_scaled {α : Type} {code : Gen α} (scale : Reg → Instr)
    {last : Instr} (same : (code state).2.function.code = (scaled (scaled state scale) fun place =>
      .alu .addI place sequence state.function.registers.size).function.code.push last)
    (started : Reg.machineCount ≤ state.function.registers.size) (old : sequence < state.function.registers.size)
    (sets : ∀ target, effect around target machine (scale state.function.registers.size) =
      some (.plain machine (.set state.function.registers.size offset)))
    (accesses : ∀ later : MachineState μ, later.memory = machine.memory →
      later.read (scaled state scale).function.registers.size = machine.read sequence + offset →
      (∀ register < state.function.registers.size, later.read register = machine.read register) →
      Accesses around later [last] access?) :
    Accesses around machine (added code state) access? := by
  let first : Nat := state.function.registers.size
  let second : Nat := (scaled state scale).function.registers.size
  have next : second = first + 1 := Array.size_push _
  have nonzero : first ≠ Reg.zero := Nat.ne_of_gt (Nat.lt_of_lt_of_le (by decide) started)
  have nextNonzero : second ≠ Reg.zero := next ▸ Nat.succ_ne_zero _
  have codes : added code state = [scale first, .alu .addI second sequence first, last] := by
    rw [added, same]
    change ((((state.function.code.push (scale first)).push (.alu .addI second sequence first)).push
      last).toList.drop _) = _
    simp
  have adds : ∀ target, effect around target (machine.assign first offset) (.alu .addI second sequence first) =
      some (.plain (machine.assign first offset) (.set second (machine.read sequence + offset))) := by
    simp [effect, Surroundings.operate, AluOp.isInteger, AluOp.evaluate?, machine.read_assign nonzero, first,
      Nat.ne_of_lt old]
  rw [codes]
  refine .afterSet sets (.afterSet adds (accesses _ rfl ?_ ?_))
  · rw [MachineState.read_assign _ nextNonzero, if_pos rfl]
  · intro register older
    rw [MachineState.read_assign _ nextNonzero, if_neg (Nat.ne_of_lt (next ▸ Nat.lt_succ_of_lt older)),
      machine.read_assign nonzero, if_neg (Nat.ne_of_lt older)]

/-- Wherever these instructions stand, they make one event and leave a value in a register, if they run to their end. -/
def LeavesResult (around : Surroundings μ) (machine : MachineState μ) (instrs : List Instr) (register : Reg) (value : Int32)
    (event : Event) : Prop :=
  ∀ code last, Stands code machine.place instrs → run around code instrs.length machine = some last →
    last.read register = value ∧ last.trace = event :: machine.trace

theorem LeavesResult.afterSet {rest : List Instr} {register result : Reg} {value left : Int32} {event : Event}
    (sets : ∀ target, effect around target machine instr = some (.plain machine (.set register value)))
    (leaves : LeavesResult around (machine.assign register value) rest result left event) :
    LeavesResult around machine (instr :: rest) result left event := by
  intro code last stands ends
  have set : run around code 1 machine = some (machine.assign register value) := run_one stands.found (sets _)
  rw [List.length_cons, Nat.add_comm, run_add, set] at ends
  exact leaves code last stands.rest ends

theorem leavesResult_store (size : MemSize) (source : Reg) {base : Reg} (register : Reg)
    (there : machine.read base + offset = address) :
    LeavesResult around machine [.store size source base offset] register (machine.read register)
      (.stored size address (machine.read source)) := by
  intro code last stands ends
  change step around code machine = some last at ends
  rw [step_eq stands.found] at ends
  obtain ⟨result, stored, rfl⟩ := Option.map_eq_some_iff.mp ends
  obtain ⟨memory, _, rfl⟩ := Option.map_eq_some_iff.mp stored
  exact ⟨rfl, by rw [there]; rfl⟩

theorem leavesResult_call (target : String) {dest : Nat} (nonzero : dest ≠ Reg.zero) {arguments : List Int32}
    {answer : Answer μ} (passed : (Instr.argumentRegisters arguments.length).map machine.read = arguments)
    (answers : around.call machine.memory (.named target) arguments = some answer) :
    LeavesResult around machine [.call target arguments.length true, .move dest Reg.result] dest (answer.contents Reg.result)
      (.called (.named target) arguments) := by
  intro code last stands ends
  let result : Effect μ :=
    ⟨machine.place + 1, answer.memory, [.called (.named target) arguments], .clobber answer.contents⟩
  have called : run around code 1 machine = some (result.apply machine) := by
    refine run_one stands.found ?_
    simp [effect, callEffect, passed, answers, result]
  have copied : run around code 1 (result.apply machine) =
      some ((result.apply machine).assign dest ((result.apply machine).read Reg.result)) :=
    run_one stands.rest.found rfl
  change run around code (1 + 1) machine = some last at ends
  rw [run_add, called, Option.bind_some, copied] at ends
  obtain rfl := Option.some.inj ends
  exact ⟨by rw [MachineState.read_assign _ nonzero, if_pos rfl]; rfl, rfl⟩

/-- By how much an index is scaled. -/
def scaleOf (element : Ty) : Nat :=
  if element.size = 1 then 1 else 4

theorem operate_indexFor (element : Ty) {index number : Nat} (below : index < number) (fits : number < 2147483648) :
    around.operate (.indexFor element.size) (.ofNat index) (.ofNat number) = some (.ofNat (scaleOf element * index)) := by
  have least : (0 : Int32) ≤ .ofNat index := by
    rw [Int32.le_iff_toInt_le, Int32.toInt_ofNat_of_lt (by omega)]
    exact Int.natCast_nonneg _
  have less : Int32.ofNat index < .ofNat number := by
    rw [Int32.lt_iff_toInt_lt, Int32.toInt_ofNat_of_lt (by omega), Int32.toInt_ofNat_of_lt fits]
    exact Int.ofNat_lt.mpr below
  by_cases single : element.size = 1 <;>
    simp [AluOp.indexFor, scaleOf, single, Surroundings.operate, least, less]

end Runs

def elementPlace (element : Ty) (sequence index count : Reg) : Gen Place := do
  return .memory (memSize element) (← elementAddress element.size sequence index count) 0

def fillSlot (array counter : Reg) (slot : Nat) (value : Reg) : Gen Unit := do
  let offset ← Emit.aluImm .mulI counter (Int32.ofNat slot)
  let place ← Emit.alu .addI array offset
  Emit.add (.store (.forBytes slot) value place 0)

def literalStore (array : Reg) (slot : Nat) (value : Reg) (index : Nat) : Instr :=
  .store (.forBytes slot) value array (.ofNat (index * slot))

/-- The code in which elements of an array are accessed. -/
structure Sites (element : Ty) (slot : Nat) : Prop where
  index : ∀ sequence index, indexPlace element (.array element) sequence index = (do
    let sequence ← sequence.value
    let index ← index.value
    elementPlace element sequence index (← elementCount (.array element) sequence))
  loop : ∀ table symbol iterable body, forArray table symbol (.array element) iterable body = (do
    let sequence ← iterable.value
    let count ← elementCount (.array element) sequence
    forIndex table symbol count (fun index => do (← elementPlace element sequence index count).read) body)
  fill : ∀ table array count index body, fillArray table array count slot index body = (do
    let counter ← Gen.variableRegister table index
    Emit.add (.constant counter 0)
    let again ← Emit.newLabel
    let test ← Emit.newLabel
    Emit.add (.jump test)
    Emit.add (.label again)
    fillSlot array counter slot (← body.value)
    Emit.add (.move counter (← Emit.aluImm .addI counter 1))
    Emit.add (.label test)
    Emit.add (.branch .ltI counter count again))
  literal : ∀ elements onStack, arrayLiteral (.array element) elements onStack = (do
    let values ← values elements
    let count ← Emit.constant (.ofNat values.length)
    let array ← newArray count (some (.ofNat values.length)) slot onStack
    values.zipIdx.forM fun entry => Emit.add (literalStore array slot entry.1 entry.2)
    return array)

theorem element_sites (element : Ty) : Sites element (slotSize (.array element)) :=
  ⟨fun _ _ => rfl, fun _ _ _ _ => rfl, fun _ _ _ _ _ => rfl, fun _ _ => rfl⟩

section Blocks

variable {μ : Type} {around : Surroundings μ} {machine : MachineState μ} {count : Nat}

/-- The address of an array that is made on the stack, behind the word that holds the number of its elements. -/
def stackArray (state : State) (machine : MachineState μ) : Int32 :=
  machine.read Reg.stack + (state.function.reserved.toInt32 + .ofNat headerSize)

theorem newArray_onStack (count : Reg) (slot : Nat) (fits : number < 2147483648) :
    newArray count (some (.ofNat number)) slot true = (do
      let array ← stackBlock (number * slot)
      writeHeader array count
      return array) := by
  have exact_ : (Int32.ofNat number).toInt = number := Int32.toInt_ofNat_of_lt fits
  have least : (0 : Int32) ≤ .ofNat number := by
    rw [Int32.le_iff_toInt_le, exact_]
    exact Int.natCast_nonneg _
  simp only [newArray, least, decide_true, Bool.and_self, if_true, exact_, Int.toNat_natCast]

theorem stackArray_leavesResult (started : Reg.machineCount ≤ state.function.registers.size)
    (old : count < state.function.registers.size) (slot : Nat) (fits : number < 2147483648) :
    LeavesResult around machine (added (newArray count (some (.ofNat number)) slot true) state) state.function.registers.size
      (stackArray state machine) (.stored .word (stackArray state machine - 4) (machine.read count)) := by
  let array : Nat := state.function.registers.size
  let shift : Int32 := state.function.reserved.toInt32 + .ofNat headerSize
  have nonzero : array ≠ Reg.zero := Nat.ne_of_gt (Nat.lt_of_lt_of_le (by decide) started)
  have codes : added (newArray count (some (.ofNat number)) slot true) state =
      [.aluImm .addI array Reg.stack shift, .store .word count array (-4)] := by
    rw [newArray_onStack count slot fits, added]
    change ((state.function.code.push (.aluImm .addI array Reg.stack shift)).push
      (.store .word count array (-4))).toList.drop _ = _
    simp
  have moves : ∀ target, effect around target machine (.aluImm .addI array Reg.stack shift) =
      some (.plain machine (.set array (stackArray state machine))) := by
    simp [effect, Surroundings.operate, AluOp.isInteger, AluOp.evaluate?, stackArray, shift]
  rw [codes]
  have there : (machine.assign array (stackArray state machine)).read array = stackArray state machine := by
    rw [machine.read_assign nonzero, if_pos rfl]
  have kept : (machine.assign array (stackArray state machine)).read count = machine.read count := by
    rw [machine.read_assign nonzero, if_neg (Nat.ne_of_lt old)]
  refine .afterSet moves ?_
  have stores : LeavesResult around _ _ _ _ _ := leavesResult_store .word count array (congrArg (· + (-4)) there)
  rwa [there, kept, ← Int32.sub_eq_add_neg] at stores

/-- The code of an array on the heap asks for a block of as many elements as the array has. -/
theorem heapArray_leavesResult (started : Reg.machineCount ≤ state.function.registers.size)
    (old : count < state.function.registers.size) (slot : Nat) (known : Option Int32) {answer : Answer μ}
    (answers : around.call machine.memory (.named Routine.mallocArray.name)
      [machine.read count, .ofNat slot] = some answer) :
    LeavesResult around machine (added (newArray count known slot false) state) (state.function.registers.size + 1)
      (answer.contents Reg.result) (.called (.named Routine.mallocArray.name) [machine.read count, .ofNat slot]) := by
  let size : Nat := state.function.registers.size
  have codes : added (newArray count known slot false) state =
      [.constant size (.ofNat slot), .move (Reg.argument 0) count, .move (Reg.argument 1) size,
        .call Routine.mallocArray.name 2 true, .move (size + 1) Reg.result] := by
    have same : newArray count known slot false = newArray count none slot false := by cases known <;> rfl
    have registers : size + 1 = (state.function.registers.push ⟨s!"T{state.function.tempCount}", .temp⟩).size := by
      simp [size]
    rw [same, added, registers]
    change (((((state.function.code.push (.constant size (.ofNat slot))).push (.move (Reg.argument 0) count)).push
      (.move (Reg.argument 1) size)).push (.call Routine.mallocArray.name 2 true)).push
      (.move (Array.size _) Reg.result)).toList.drop _ = _
    simp
  let first := machine.assign size (.ofNat slot)
  let second := first.assign (Reg.argument 0) (machine.read count)
  let third := second.assign (Reg.argument 1) (.ofNat slot)
  have nonzero : size ≠ Reg.zero := Nat.ne_of_gt (Nat.lt_of_lt_of_le (by decide) started)
  have counts : first.read count = machine.read count := by
    rw [machine.read_assign nonzero, if_neg (Nat.ne_of_lt old)]
  have slots : second.read size = .ofNat slot := by
    have apart : size ≠ Reg.argument 0 := Nat.ne_of_gt (Nat.lt_of_lt_of_le (by decide) started)
    rw [first.read_assign (by decide), if_neg apart, machine.read_assign nonzero, if_pos rfl]
  have answersThird : around.call third.memory (.named Routine.mallocArray.name)
      [machine.read count, .ofNat slot] = some answer :=
    answers
  have passed : (Instr.argumentRegisters 2).map third.read = [machine.read count, .ofNat slot] := by
    change [third.read (Reg.argument 0), third.read (Reg.argument 1)] = _
    rw [second.read_assign (by decide), second.read_assign (by decide), if_pos rfl, if_neg (by decide),
      first.read_assign (by decide), if_pos rfl]
  rw [codes]
  refine .afterSet (fun _ => rfl) (.afterSet (fun _ => rfl) (.afterSet (fun _ => rfl) ?_))
  rw [counts, slots]
  exact leavesResult_call _ (Nat.succ_ne_zero size) passed answersThird

theorem stackArray_within (count : Reg) {slot : Nat} (fits : number < 2147483648)
    (counted : state.function.stackSize + (number * slot + headerSize + 3) / 4 * 4 < UInt32.size) :
    bytesFrom (stackArray state machine) (number * slot) ⊆
      bytesFrom (machine.read Reg.stack + state.function.reserved.toInt32)
        ((newArray count (some (.ofNat number)) slot true state).2.function.stackSize - state.function.stackSize) := by
  have after : (newArray count (some (.ofNat number)) slot true state).2.function.stackSize =
      state.function.stackSize + (number * slot + headerSize + 3) / 4 * 4 := by
    rw [newArray_onStack count slot fits]
    exact reserveStack_stackSize.mpr counted
  rw [after, Nat.add_sub_cancel_left]
  intro address member
  obtain ⟨byte, inside, rfl⟩ := List.mem_map.mp member
  rw [List.mem_range] at inside
  refine List.mem_map.mpr ⟨headerSize + byte, List.mem_range.mpr (by omega), ?_⟩
  rw [stackArray, Int32.ofNat_add, Int32.add_assoc, Int32.add_assoc, Int32.add_assoc]

/-- The block that is reserved for an array. On the stack it is part of the frame, behind the word for the number of
elements; on the heap it is asked for with the number of elements and the bytes of each. -/
structure Reserves (around : Surroundings μ) (state : State) (machine : MachineState μ)
    (count number slot : Nat) : Prop where
  onStack : LeavesResult around machine (added (newArray count (some (.ofNat number)) slot true) state)
    state.function.registers.size (stackArray state machine)
    (.stored .word (stackArray state machine - 4) (.ofNat number))
  inFrame : state.function.stackSize + (number * slot + headerSize + 3) / 4 * 4 < UInt32.size →
    bytesFrom (stackArray state machine) (number * slot) ⊆
      bytesFrom (machine.read Reg.stack + state.function.reserved.toInt32)
        ((newArray count (some (.ofNat number)) slot true state).2.function.stackSize - state.function.stackSize)
  onHeap : ∀ (known : Option Int32) (answer : Answer μ),
    around.call machine.memory (.named Routine.mallocArray.name) [.ofNat number, .ofNat slot] = some answer →
      LeavesResult around machine (added (newArray count known slot false) state) (state.function.registers.size + 1)
        (answer.contents Reg.result) (.called (.named Routine.mallocArray.name) [.ofNat number, .ofNat slot])

theorem newArray_reserves (started : Reg.machineCount ≤ state.function.registers.size)
    (old : count < state.function.registers.size) (counts : machine.read count = .ofNat number)
    (fits : number < 2147483648) (slot : Nat) : Reserves around state machine count number slot := by
  refine ⟨?_, stackArray_within count fits, fun known answer answers => ?_⟩
  · have leaves : LeavesResult around machine _ _ _ _ := stackArray_leavesResult started old slot fits
    rw [counts] at leaves
    exact leaves
  · rw [← counts] at answers ⊢
    exact heapArray_leavesResult started old slot known answers

end Blocks

section Elements

variable {μ : Type} {around : Surroundings μ} {machine : MachineState μ} {counter count value index number : Nat}

/-- An array, an index below the number of its elements, and a value for the element, in registers. -/
structure AtElement (state : State) (machine : MachineState μ)
    (sequence counter count value index number : Nat) : Prop where
  started : Reg.machineCount ≤ state.function.registers.size
  old : ∀ register ∈ [sequence, value], register < state.function.registers.size
  counts : machine.read counter = .ofNat index
  bounded : machine.read count = .ofNat number
  below : index < number
  fits : number < 2147483648

theorem AtElement.indexed (there : AtElement state machine sequence counter count value index number) (element : Ty) :
    let address := slotAddress (machine.read sequence) (scaleOf element) index
    Accesses around machine (added (do (← elementPlace element sequence counter count).read) state)
        (load? around machine.memory (memSize element) address) ∧
      Accesses around machine (added (do (← elementPlace element sequence counter count).write value) state)
        (store? around machine.memory (memSize element) address (machine.read value)) := by
  let scale (first : Reg) : Instr := .alu (.indexFor element.size) first counter count
  have scales : ∀ target, effect around target machine (scale state.function.registers.size) =
      some (.plain machine (.set state.function.registers.size (.ofNat (scaleOf element * index)))) := by
    simp [scale, effect, there.counts, there.bounded, operate_indexFor element there.below there.fits]
  have known := there.old sequence (by simp)
  constructor
  · refine accesses_scaled scale rfl there.started known scales ?_
    intro later memory reads kept
    exact memory ▸ accesses_load _ _ reads
  · refine accesses_scaled scale rfl there.started known scales ?_
    intro later memory reads kept
    rw [← memory, ← kept value (there.old value (by simp))]
    exact accesses_store _ _ ((Int32.add_zero _).trans reads)

theorem AtElement.filled (there : AtElement state machine sequence counter count value index number) (slot : Nat) :
    Accesses around machine (added (fillSlot sequence counter slot value) state)
      (store? around machine.memory (.forBytes slot) (slotAddress (machine.read sequence) slot index)
          (machine.read value)) := by
  let scale (first : Reg) : Instr := .aluImm .mulI first counter (.ofNat slot)
  have scales : ∀ target, effect around target machine (scale state.function.registers.size) =
      some (.plain machine (.set state.function.registers.size (.ofNat (slot * index)))) := by
    simp [scale, effect, there.counts, Surroundings.operate, AluOp.isInteger, AluOp.evaluate?, Int32.mul_comm]
  refine accesses_scaled scale rfl there.started
    (there.old sequence (by simp)) scales ?_
  intro later memory reads kept
  rw [← memory, ← kept value (there.old value (by simp))]
  exact accesses_store _ _ ((Int32.add_zero _).trans reads)

theorem literal_accesses (slot : Nat) :
    Accesses around machine [literalStore sequence slot value index]
      (store? around machine.memory (.forBytes slot) (slotAddress (machine.read sequence) slot index)
          (machine.read value)) :=
  accesses_store _ _ (by rw [Nat.mul_comm]; rfl)

theorem scale_eq_slot (element : Ty) :
    (scaleOf element = slotSize (.array element) ∧ memSize element = .forBytes (slotSize (.array element))) ↔
      element.size = 1 ∨ element.size = 4 := by
  have slot : slotSize (.array element) = max element.size 1 := rfl
  rw [slot, scaleOf, memSize]
  constructor
  · rintro ⟨same, -⟩
    split at same <;> omega
  · rintro (size | size) <;> simp [size]

theorem elements_meet (there : AtElement state machine sequence counter count value index number) (element : Ty) :
    let slot := slotSize (.array element)
    let indexed := slotAddress (machine.read sequence) (scaleOf element) index
    let address := slotAddress (machine.read sequence) slot index
    Sites element slot ∧
    (Accesses around machine (added (do (← elementPlace element sequence counter count).read) state)
        (load? around machine.memory (memSize element) indexed) ∧
      Accesses around machine (added (do (← elementPlace element sequence counter count).write value) state)
        (store? around machine.memory (memSize element) indexed (machine.read value))) ∧
    (Accesses around machine (added (fillSlot sequence counter slot value) state)
        (store? around machine.memory (.forBytes slot) address (machine.read value)) ∧
      Accesses around machine [literalStore sequence slot value index]
        (store? around machine.memory (.forBytes slot) address (machine.read value))) ∧
    ((scaleOf element = slot ∧ memSize element = .forBytes slot) ↔ element.size = 1 ∨ element.size = 4) ∧
    (element.size = 1 ∨ element.size = 4 → (MemSize.forBytes slot).bytes = slot ∧
      bytesFrom address slot ⊆ bytesFrom (machine.read sequence) (number * slot) ∧
      ∀ other < number, other ≠ index → number * slot ≤ 4294967296 →
        (bytesFrom address slot).Disjoint (bytesFrom (slotAddress (machine.read sequence) slot other) slot)) ∧
    ∀ (before : State) (start : MachineState μ) (size : Nat), Reg.machineCount ≤ before.function.registers.size →
      size < before.function.registers.size → start.read size = .ofNat number →
      Reserves around before start size number slot := by
  refine ⟨element_sites element, there.indexed element, ⟨there.filled _, literal_accesses _⟩, scale_eq_slot element, ?_,
    fun _ _ _ started old counts => newArray_reserves started old counts there.fits _⟩
  intro size
  refine ⟨?_, slot_within _ there.below, fun other below apart fits => slots_disjoint _ there.below below apart.symm fits⟩
  change (MemSize.forBytes (max element.size 1)).bytes = max element.size 1
  rcases size with size | size <;> simp [size, MemSize.forBytes, MemSize.bytes]

/-- At the second of two elements, in code that has no temporaries yet. Each word of the memory holds its address. -/
def atSecond : MachineState (Int32 → Int32) :=
  .entry (fun register => if register = 1 then 1000 else .ofNat (register - 1 : Nat)) id

def noCode : State :=
  ⟨default, .empty "f" false, none, []⟩

theorem atSecond_atElement : AtElement noCode atSecond 1 2 3 4 1 2 :=
  ⟨by decide, by decide, by decide, by decide, by decide, by decide⟩

theorem elements_meet_words :
    Accesses Surroundings.words atSecond (added (do (← elementPlace .int 1 2 3).read) noCode)
        (some (.loaded .word 1004 1004)) ∧
      Accesses Surroundings.words atSecond (added (fillSlot 1 2 4 4) noCode) (some (.stored .word 1004 3)) ∧
      Accesses Surroundings.words atSecond [literalStore 1 4 4 1] (some (.stored .word 1004 3)) ∧
      LeavesResult Surroundings.words atSecond (added (newArray 3 (some 2) 4 true) noCode) 32 34 (.stored .word 30 2) ∧
      bytesFrom 34 8 ⊆ bytesFrom 30 12 := by
  obtain ⟨_, ⟨read, _⟩, ⟨fill, literal⟩, _, _, reserves⟩ := elements_meet atSecond_atElement .int
  have block := reserves noCode atSecond 3 (by decide) (by decide) (by decide)
  exact ⟨read, fill, literal, block.onStack, block.inFrame (by decide)⟩

/-- An element of eight bytes: it is read four bytes behind the first one, and a literal stores it eight bytes behind it. -/
theorem pairs_apart :
    let pair := Ty.inlineArray .int 2
    Accesses Surroundings.words atSecond (added (do (← elementPlace pair 1 2 3).read) noCode)
        (some (.loaded .word 1004 1004)) ∧
      Accesses Surroundings.words atSecond [literalStore 1 (slotSize (.array pair)) 4 1] (some (.stored .word 1008 3)) :=
  ⟨(atSecond_atElement.indexed _).1, literal_accesses _⟩

end Elements

end FplCompiler.Codegen

import FplCompiler.Assembly.Text
import FplCompiler.Proofs.SingleWrites

/-!
Runs of the block of a function, from its entry to a return. The frame keeps the return address and the registers that
the function has to restore; as long as the code in between leaves them alone in memory, they are back at the return.
-/

namespace FplCompiler.Assembly

open Ir

variable {μ : Type} {instr : Instr} {function : Function} {register place label : Nat} {ops others : List BlockOp}
  {around : Surroundings μ} {frame? : Option Frame} {frame : Frame} {op : BlockOp} {returns : Bool}

def labelIn? (block : List BlockOp) (label : Label) : Option Nat :=
  block.findIdx? (· = .code (.label label))

/-- The registers after an instruction. A call leaves arbitrary contents in the return address too. -/
def registersAfter (registers : Reg → Int32) : Change → Reg → Int32
  | .clobber contents => fun other =>
    if IsCallerSaved other ∨ other = Reg.link then contents other else registers other
  | change => change.apply registers

def setNext (state : MachineState μ) (register : Reg) (value : Int32) : MachineState μ :=
  { state with
    place := state.place + 1
    registers := (Change.set register value).apply state.registers }

def fromStack (state : MachineState μ) (offset : UInt32) : Int32 :=
  state.read Reg.stack + offset.toInt32

/-- Runs a line of a block. A trap and the return do nothing. -/
def runOp (around : Surroundings μ) (block : List BlockOp) (state : MachineState μ) :
    BlockOp → Option (MachineState μ)
  | .code instr =>
    (effect around (labelIn? block) state instr).map fun result =>
      ⟨result.next, registersAfter state.registers result.change, result.memory, result.events ++ state.trace⟩
  | .reserve bytes => some (setNext state Reg.stack (state.read Reg.stack - bytes.toInt32))
  | .release bytes => some (setNext state Reg.stack (state.read Reg.stack + bytes.toInt32))
  | .save register offset =>
    (around.store state.memory .word (fromStack state offset) (state.read register)).map fun memory =>
      { state with place := state.place + 1, memory := memory }
  | .restore register offset =>
    (around.load state.memory .word (fromStack state offset)).map (setNext state register)

def Apart (first second : Int32) : Prop :=
  4 ≤ (first - second).toUInt32.toNat ∧ 4 ≤ (second - first).toUInt32.toNat

structure KeepsWords (around : Surroundings μ) : Prop where
  stored : ∀ {memory later : μ} {address value : Int32}, around.store memory .word address value = some later →
    around.load later .word address = some value
  apart : ∀ {memory later : μ} {address other value : Int32}, around.store memory .word address value = some later →
    Apart address other → around.load later .word other = around.load memory .word other

namespace Frame

def saves (frame : Frame) : List (Reg × UInt32) :=
  (Reg.link, frame.locals) :: frame.saved.zipIdx.map fun (register, index) => (register, frame.slot index)

theorem entry_eq (frame : Frame) :
    frame.entry = .reserve frame.size :: frame.saves.map fun save => .save save.1 save.2 := by
  simp [entry, saves]

theorem exit_eq (frame : Frame) :
    frame.exit = (frame.saves.reverse.map fun save => .restore save.1 save.2) ++ [.release frame.size] := by
  simp [exit, saves]

end Frame

def LeavesFrame (around : Surroundings μ) (frame? : Option Frame) (state next : MachineState μ) : Prop :=
  ∀ frame ∈ frame?, ∀ save ∈ frame.saves,
    around.load next.memory .word (fromStack state save.2) = around.load state.memory .word (fromStack state save.2)

inductive BlockRun (around : Surroundings μ) (function : Function) (first : MachineState μ) : MachineState μ → Prop
  | start : first.place = 0 → BlockRun around function first first
  | step {state next : MachineState μ} {op : BlockOp} (before : BlockRun around function first state)
      (found : (block function)[state.place]? = some op)
      (taken : runOp around (block function) state op = some next)
      (guarded : ∀ instr, op = .code instr → LeavesFrame around (Frame.ofFunction? function) state next) :
      BlockRun around function first next

theorem code_not_mem_exit (frame? : Option Frame) (instr : Instr) :
    .code instr ∉ (frame?.map Frame.exit).getD [] := by
  cases frame? with
  | none => simp
  | some frame => simp [Frame.exit_eq]

theorem mem_instrOps_code {first : Instr} (entered : first ≠ .start) (member : .code instr ∈ instrOps frame? first) :
    instr = first ∧ ((∀ returns, instr ≠ .ret returns) → instrOps frame? first = [.code first]) := by
  cases first with
  | nop => simp [instrOps] at member
  | start => exact absurd rfl entered
  | ret returns =>
    rcases List.mem_append.mp member with outside | last
    · exact absurd outside (code_not_mem_exit frame? instr)
    · obtain rfl : instr = .ret returns := by simpa using last
      exact ⟨rfl, fun plain => absurd rfl (plain returns)⟩
  | _ =>
    simp only [instrOps, List.mem_singleton, BlockOp.code.injEq] at member
    exact ⟨member, fun _ => rfl⟩

theorem drop_of_code {rest : List Instr} (entered : .start ∉ rest) (plain : ∀ returns, instr ≠ .ret returns)
    (found : (rest.flatMap (instrOps frame?))[place]? = some (.code instr)) :
    ∃ later, (rest.flatMap (instrOps frame?)).drop place = later.flatMap (instrOps frame?) ∧ later <:+ rest := by
  induction rest generalizing place with
  | nil => simp at found
  | cons first rest ih =>
    simp only [List.mem_cons, not_or] at entered
    rw [List.flatMap_cons] at found ⊢
    by_cases here : place < (instrOps frame? first).length
    · rw [List.getElem?_append_left here] at found
      obtain ⟨_, only⟩ := mem_instrOps_code (Ne.symm entered.1) (List.mem_of_getElem? found)
      obtain rfl : place = 0 := by
        rw [only plain] at here
        simpa using here
      exact ⟨first :: rest, by simp, List.suffix_rfl⟩
    · have outside : (instrOps frame? first).length ≤ place := by omega
      rw [List.getElem?_append_right outside] at found
      obtain ⟨later, dropped, suffix⟩ := ih entered.2 found
      refine ⟨later, ?_, suffix.trans (List.suffix_cons _ _)⟩
      rw [List.drop_append, List.drop_eq_nil_of_le outside, List.nil_append, dropped]

theorem drop_cons {first : BlockOp} (found : ops[place]? = some op)
    (dropped : ops.drop place = first :: others) : op = first ∧ ops.drop (place + 1) = others := by
  have bound : place < ops.length := (List.getElem?_eq_some_iff.mp found).1
  rw [List.drop_eq_getElem_cons bound, List.cons.injEq] at dropped
  rw [List.getElem?_eq_getElem bound, Option.some.injEq] at found
  exact ⟨found.symm.trans dropped.1, dropped.2⟩

theorem apart_offsets (base : Int32) (locals : UInt32) {first second : Nat} (less : first < second)
    (close : second - first < 2 ^ 29) :
    Apart (base + (locals + 4 * UInt32.ofNat first).toInt32) (base + (locals + 4 * UInt32.ofNat second).toInt32) := by
  simp only [Apart, Int32.toUInt32_sub, Int32.toUInt32_add, UInt32.toNat_sub, UInt32.toNat_add, UInt32.toNat_mul,
    UInt32.toUInt32_toInt32, UInt32.toNat_ofNat', UInt32.toNat_ofNat]
  omega

namespace Frame

theorem offset_of_saves {index : Nat} {save : Reg × UInt32} (found : frame.saves[index]? = some save) :
    save.2 = frame.locals + 4 * UInt32.ofNat index := by
  cases index with
  | zero =>
    obtain rfl : (Reg.link, frame.locals) = save := by simpa [saves] using found
    simp
  | succ index =>
    simp only [saves, List.getElem?_cons_succ, List.getElem?_map, List.getElem?_zipIdx, Option.map_map,
      Option.map_eq_some_iff] at found
    obtain ⟨register, _, rfl⟩ := found
    simp only [Function.comp, slot]
    rw [Nat.zero_add, UInt32.ofNat_add, UInt32.mul_add, UInt32.add_assoc, UInt32.add_comm 4]
    rfl

theorem saves_apart (few : frame.saved.length ≤ 20) (base : Int32) :
    frame.saves.Pairwise fun first second => Apart (base + first.2.toInt32) (base + second.2.toInt32) := by
  rw [List.pairwise_iff_getElem]
  intro first second firstBound secondBound less
  rw [offset_of_saves (List.getElem?_eq_getElem firstBound), offset_of_saves (List.getElem?_eq_getElem secondBound)]
  have length : frame.saves.length = frame.saved.length + 1 := by simp [saves]
  exact apart_offsets base frame.locals less (by omega)

theorem saved_of_ofFunction? (found : ofFunction? function = some frame) :
    frame.saved = (List.range (function.maxRegister + 1 - 9)).map (· + 9) := by
  simp only [ofFunction?] at found
  split at found
  · rw [← Option.some.inj found]
  · cases found

theorem mem_saved (found : ofFunction? function = some frame) :
    register ∈ frame.saved ↔ 9 ≤ register ∧ register ≤ function.maxRegister := by
  rw [saved_of_ofFunction? found]
  simp only [List.mem_map, List.mem_range]
  constructor
  · omega
  · rintro ⟨lower, upper⟩
    exact ⟨register - 9, by omega, by omega⟩

theorem mem_saves :
    register ∈ frame.saves.map Prod.fst ↔ register = Reg.link ∨ register ∈ frame.saved := by
  simp [saves, Function.comp_def]

end Frame

section Frame

variable {first state next : MachineState μ} {done todo : List (Reg × UInt32)}

def lowered (frame : Frame) (first : MachineState μ) : Int32 :=
  first.read Reg.stack - frame.size.toInt32

structure Holds (around : Surroundings μ) (frame : Frame) (first : MachineState μ) (saves : List (Reg × UInt32))
    (state : MachineState μ) : Prop where
  stack : state.read Reg.stack = lowered frame first
  slots : ∀ save ∈ saves,
    around.load state.memory .word (lowered frame first + save.2.toInt32) = some (first.read save.1)

@[simp]
theorem place_setNext (register : Reg) (value : Int32) : (setNext state register value).place = state.place + 1 :=
  rfl

theorem read_setNext {other : Nat} (value : Int32) (different : other ≠ register) :
    (setNext state register value).read other = state.read other := by
  simp [MachineState.read, setNext, Change.apply, different]

theorem read_setNext_self (value : Int32) (nonzero : register ≠ Reg.zero) :
    (setNext state register value).read register = value := by
  rw [MachineState.read_of_ne _ nonzero]
  simp [setNext, Change.apply]

/-- Registers that come back: some by themselves, the others since the frame saves them. -/
def Returned (frame : Frame) (keeps : Nat → Prop) (register : Nat) : Prop :=
  register ≠ Reg.stack ∧ (keeps register ∨ register ∈ frame.saves.map Prod.fst)

/-- Everything is saved, and the registers that come back are as they were at first, but for some that are saved. -/
structure Within (around : Surroundings μ) (frame : Frame) (keeps : Nat → Prop) (first : MachineState μ)
    (saves : List (Reg × UInt32)) (state : MachineState μ) : Prop extends Holds around frame first frame.saves state where
  kept : ∀ register, Returned frame keeps register → register ∉ saves.map Prod.fst →
    state.read register = first.read register

def Spares (frame : Frame) (keeps : Nat → Prop) (state next : MachineState μ) : Prop :=
  ∀ register, register = Reg.stack ∨ Returned frame keeps register → register ∉ frame.saves.map Prod.fst →
    next.read register = state.read register

/-- The parts of a run of a block with a frame, by the lines that follow. The registers that come back are as they were at
first as far as they are not saved, and again when they are restored. -/
inductive Phase (around : Surroundings μ) (frame : Frame) (keeps : Nat → Prop) (rest : List Instr)
    (first : MachineState μ) : MachineState μ → List BlockOp → Prop
  | atEntry : Phase around frame keeps rest first first (frame.entry ++ rest.flatMap (instrOps (some frame)))
  | entering {state : MachineState μ} {done todo : List (Reg × UInt32)} (parts : frame.saves = done ++ todo)
      (holds : Holds around frame first done state)
      (kept : ∀ register : Nat, register ≠ Reg.stack → state.read register = first.read register) :
      Phase around frame keeps rest first state
        ((todo.map fun save => .save save.1 save.2) ++ rest.flatMap (instrOps (some frame)))
  | inside {state : MachineState μ} {later : List Instr} (part : later <:+ rest)
      (within : Within around frame keeps first frame.saves state) :
      Phase around frame keeps rest first state (later.flatMap (instrOps (some frame)))
  | leaving {state : MachineState μ} {todo done : List (Reg × UInt32)} {returns : Bool} {others : List BlockOp}
      (parts : frame.saves = todo ++ done) (within : Within around frame keeps first todo state) :
      Phase around frame keeps rest first state
        ((todo.reverse.map fun save => .restore save.1 save.2) ++
          .release frame.size :: .code (.ret returns) :: others)
  | atReturn {state : MachineState μ} {returns : Bool} {others : List BlockOp}
      (stack : state.read Reg.stack = first.read Reg.stack)
      (kept : ∀ register, Returned frame keeps register → state.read register = first.read register) :
      Phase around frame keeps rest first state (.code (.ret returns) :: others)

structure Framed (function : Function) (frame : Frame) (rest : List Instr) : Prop where
  code : function.code.toList = .start :: rest
  entered : .start ∉ rest
  given : Frame.ofFunction? function = some frame
  highest : function.maxRegister ≤ 28

variable {rest later : List Instr} {keeps : Nat → Prop} {saved : Reg × UInt32}

/-- The lines between entry and exit leave alone where the stack is, and what the frame does not save. -/
def CodeKeeps (around : Surroundings μ) (function : Function) (frame : Frame) (keeps : Nat → Prop)
    (first : MachineState μ) : Prop :=
  ∀ state next instr, BlockRun around function first state → (block function)[state.place]? = some (.code instr) →
    runOp around (block function) state (.code instr) = some next → Spares frame keeps state next

theorem Framed.block_eq (framed : Framed function frame rest) :
    block function = frame.entry ++ rest.flatMap (instrOps (some frame)) := by
  simp [block, framed.code, framed.given, instrOps]

theorem Framed.range (framed : Framed function frame rest)
    (saved : register ∈ frame.saves.map Prod.fst) : 9 ≤ register ∧ register ≤ Reg.link := by
  rcases Frame.mem_saves.mp saved with rfl | member
  · decide
  · obtain ⟨lower, upper⟩ := (Frame.mem_saved framed.given).mp member
    exact ⟨lower, Nat.le_trans (Nat.le_trans upper framed.highest) (by decide)⟩

theorem Framed.few (framed : Framed function frame rest) : frame.saved.length ≤ 20 := by
  have highest := framed.highest
  rw [Frame.saved_of_ofFunction? framed.given, List.length_map, List.length_range]
  omega

theorem Framed.unmoved (framed : Framed function frame rest) : Reg.stack ∉ frame.saves.map Prod.fst :=
  fun saved => absurd (framed.range saved).2 (by decide)

theorem Phase.reserve :
    Phase around frame keeps rest first
      (setNext first Reg.stack (first.read Reg.stack - frame.size.toInt32))
      ((frame.saves.map fun save => .save save.1 save.2) ++ rest.flatMap (instrOps (some frame))) := by
  refine .entering (List.nil_append _).symm ⟨?_, by simp⟩ fun register other => read_setNext _ other
  rw [read_setNext_self _ (by decide), lowered]

theorem Phase.save (words : KeepsWords around) (framed : Framed function frame rest)
    (parts : frame.saves = done ++ saved :: todo) (holds : Holds around frame first done state)
    (kept : ∀ register : Nat, register ≠ Reg.stack → state.read register = first.read register)
    (taken : runOp around (block function) state (.save saved.1 saved.2) = some next) :
    next.place = state.place + 1 ∧ Phase around frame keeps rest first next
      ((todo.map fun save => .save save.1 save.2) ++ rest.flatMap (instrOps (some frame))) := by
  obtain ⟨memory, stored, rfl⟩ := Option.map_eq_some_iff.mp taken
  have unmoved : saved.1 ≠ Reg.stack := fun same => framed.unmoved (by simp [parts, same])
  rw [fromStack, holds.stack, kept saved.1 unmoved] at stored
  have apart := Frame.saves_apart framed.few (lowered frame first)
  rw [parts, List.pairwise_append] at apart
  have moved : frame.saves = (done ++ [saved]) ++ todo := by simp [parts]
  refine ⟨rfl, .entering moved ⟨holds.stack, ?_⟩ kept⟩
  intro other member
  rcases List.mem_append.mp member with before | last
  · have different := apart.2.2 other before saved (by simp)
    exact (words.apart stored ⟨different.2, different.1⟩).trans (holds.slots other before)
  · rw [List.mem_singleton.mp last]
    exact words.stored stored

theorem Phase.restore (framed : Framed function frame rest)
    (parts : frame.saves = todo ++ saved :: done) (within : Within around frame keeps first (todo ++ [saved]) state)
    (taken : runOp around (block function) state (.restore saved.1 saved.2) = some next) :
    next.place = state.place + 1 ∧ Phase around frame keeps rest first next
      ((todo.reverse.map fun save => .restore save.1 save.2) ++
        .release frame.size :: .code (.ret returns) :: others) := by
  obtain ⟨value, loaded, rfl⟩ := Option.map_eq_some_iff.mp taken
  have range : 9 ≤ saved.1 ∧ saved.1 ≤ Reg.link := framed.range (by simp [parts])
  have unmoved : Reg.stack ≠ saved.1 := fun same => framed.unmoved (by simp [parts, same])
  rw [fromStack, within.stack, within.slots saved (by simp [parts]), Option.some.injEq] at loaded
  subst value
  refine ⟨rfl, .leaving parts ⟨⟨?_, within.slots⟩, ?_⟩⟩
  · rw [read_setNext _ unmoved, within.stack]
  · intro register returned outside
    by_cases same : register = saved.1
    · rw [same, read_setNext_self]
      rintro zero
      rw [zero] at range
      exact absurd range.1 (by decide)
    · rw [read_setNext _ same]
      refine within.kept register returned ?_
      simp only [List.map_append, List.map_cons, List.map_nil, List.mem_append, List.mem_singleton, not_or]
      exact ⟨outside, same⟩

theorem Phase.release (within : Within around frame keeps first [] state) :
    Phase around frame keeps rest first
      (setNext state Reg.stack (state.read Reg.stack + frame.size.toInt32)) (.code (.ret returns) :: others) := by
  refine .atReturn ?_ fun register returned => ?_
  · rw [read_setNext_self _ (by decide), within.stack, lowered, Int32.sub_add_cancel]
  · rw [read_setNext _ returned.1, within.kept register returned (by simp)]

theorem labelIn?_eq_some (found : labelIn? ops label = some place) :
    ops[place]? = some (.code (.label label)) := by
  obtain ⟨bound, here, _⟩ := List.findIdx?_eq_some_iff_getElem.mp found
  rw [List.getElem?_eq_getElem bound]
  simpa using here

theorem Framed.drop_of_label (framed : Framed function frame rest)
    (found : labelIn? (block function) label = some place) :
    ∃ later, (block function).drop place = later.flatMap (instrOps (some frame)) ∧ later <:+ rest := by
  have here := labelIn?_eq_some found
  rw [framed.block_eq] at here ⊢
  have outside : frame.entry.length ≤ place := by
    by_contra inside
    rw [List.getElem?_append_left (by omega)] at here
    have member := List.mem_of_getElem? here
    simp [Frame.entry_eq] at member
  rw [List.getElem?_append_right outside] at here
  rw [List.drop_append, List.drop_eq_nil_of_le outside]
  exact drop_of_code framed.entered (by simp) here

theorem Phase.code (framed : Framed function frame rest)
    (part : instr :: later <:+ rest) (within : Within around frame keeps first frame.saves state)
    (follows : (block function).drop (state.place + 1) = later.flatMap (instrOps (some frame)))
    (taken : runOp around (block function) state (.code instr) = some next)
    (guarded : LeavesFrame around (some frame) state next) (spares : Spares frame keeps state next) :
    Phase around frame keeps rest first next ((block function).drop next.place) := by
  have nextWithin : Within around frame keeps first frame.saves next := by
    refine ⟨⟨?_, fun save member => ?_⟩, fun register returned unsaved => ?_⟩
    · rw [spares Reg.stack (Or.inl rfl) framed.unmoved, within.stack]
    · have same := guarded frame rfl save member
      rw [fromStack, within.stack] at same
      exact same.trans (within.slots save member)
    · exact (spares register (Or.inr returned) unsaved).trans (within.kept register returned unsaved)
  obtain ⟨result, done, rfl⟩ := Option.map_eq_some_iff.mp taken
  rcases effect_next done with ⟨following, _⟩ | ⟨label, _, jumps⟩
  · have dropped : (block function).drop result.next = later.flatMap (instrOps (some frame)) := following ▸ follows
    exact dropped ▸ .inside ((List.suffix_cons _ _).trans part) nextWithin
  · obtain ⟨other, dropped, otherPart⟩ := framed.drop_of_label jumps
    exact dropped ▸ .inside otherPart nextWithin

section

variable (framed : Framed function frame rest) (found : (block function)[state.place]? = some op)
  (taken : runOp around (block function) state op = some next)

include framed found taken

theorem Phase.leave (parts : frame.saves = todo ++ done) (within : Within around frame keeps first todo state)
    (dropped : (block function).drop state.place = (todo.reverse.map fun save => .restore save.1 save.2) ++
      .release frame.size :: .code (.ret returns) :: others) :
    Phase around frame keeps rest first next ((block function).drop next.place) := by
  cases todo using List.reverseRecOn with
  | nil =>
    obtain ⟨rfl, follows⟩ := drop_cons found dropped
    obtain rfl := Option.some.inj taken
    rw [place_setNext, follows]
    exact .release within
  | append_singleton todo save =>
    rw [List.reverse_append, List.reverse_singleton, List.singleton_append, List.map_cons]
      at dropped
    obtain ⟨rfl, follows⟩ := drop_cons found dropped
    rw [List.append_assoc] at parts
    obtain ⟨place, later⟩ := Phase.restore framed parts within taken
    rw [place, follows]
    exact later

variable (guarded : ∀ instr, op = .code instr → LeavesFrame around (some frame) state next)
  (spares : ∀ instr, op = .code instr → Spares frame keeps state next)

include guarded spares

theorem Phase.goOn (part : later <:+ rest) (within : Within around frame keeps first frame.saves state)
    (dropped : (block function).drop state.place = later.flatMap (instrOps (some frame))) :
    Phase around frame keeps rest first next ((block function).drop next.place) := by
  induction later with
  | nil =>
    have bound := (List.getElem?_eq_some_iff.mp found).1
    simp only [List.flatMap_nil, List.drop_eq_nil_iff] at dropped
    omega
  | cons instr later ih =>
    cases instr with
    | nop => exact ih ((List.suffix_cons _ _).trans part) dropped
    | start => exact absurd (part.mem (by simp)) framed.entered
    | ret returns =>
      have leaves : (block function).drop state.place =
          (frame.saves.reverse.map fun save => .restore save.1 save.2) ++
            .release frame.size :: .code (.ret returns) :: later.flatMap (instrOps (some frame)) := by
        simp [dropped, instrOps, Frame.exit_eq]
      exact Phase.leave framed found taken (List.append_nil _).symm within leaves
    | _ =>
      obtain ⟨rfl, follows⟩ := drop_cons found dropped
      exact Phase.code framed part within follows taken (guarded _ rfl) (spares _ rfl)

theorem Phase.step (words : KeepsWords around) (phase : Phase around frame keeps rest first state ops)
    (dropped : (block function).drop state.place = ops) :
    Phase around frame keeps rest first next ((block function).drop next.place) := by
  cases phase with
  | atEntry =>
    rw [Frame.entry_eq] at dropped
    obtain ⟨rfl, follows⟩ := drop_cons found dropped
    obtain rfl := Option.some.inj taken
    rw [place_setNext, follows]
    exact .reserve
  | @entering _ done todo parts holds kept =>
    cases todo with
    | nil =>
      rw [List.append_nil] at parts
      exact Phase.goOn framed found taken guarded spares List.suffix_rfl
        ⟨parts ▸ holds, fun register returned _ => kept register returned.1⟩ dropped
    | cons save todo =>
      obtain ⟨rfl, follows⟩ := drop_cons found dropped
      obtain ⟨place, later⟩ := Phase.save words framed parts holds kept taken
      rw [place, follows]
      exact later
  | inside part within => exact Phase.goOn framed found taken guarded spares part within dropped
  | leaving parts within => exact Phase.leave framed found taken parts within dropped
  | atReturn kept =>
    obtain ⟨rfl, _⟩ := drop_cons found dropped
    simp [runOp, effect] at taken

end

theorem BlockRun.phase (words : KeepsWords around) (framed : Framed function frame rest)
    (unchanged : CodeKeeps around function frame keeps first) (reached : BlockRun around function first state) :
    Phase around frame keeps rest first state ((block function).drop state.place) := by
  induction reached with
  | start atFirst =>
    rw [atFirst, framed.block_eq]
    exact .atEntry
  | step before found taken guarded ih =>
    refine .step framed found taken (framed.given ▸ guarded) ?_ words ih rfl
    rintro instr rfl
    exact unchanged _ _ instr before found taken

theorem flatMap_ne_ret (frame : Frame) (later : List Instr) (returns : Bool) (others : List BlockOp) :
    later.flatMap (instrOps (some frame)) ≠ .code (.ret returns) :: others := by
  induction later with
  | nil => simp
  | cons instr later ih =>
    cases instr with
    | nop => exact ih
    | start => simp [instrOps, Frame.entry_eq]
    | ret returns =>
      have some : frame.saves.reverse ≠ [] := by simp [Frame.saves]
      obtain ⟨save, todo, parts⟩ := List.exists_cons_of_ne_nil some
      simp [instrOps, Frame.exit_eq, parts]
    | _ => simp [instrOps]

theorem Framed.atReturn (words : KeepsWords around) (framed : Framed function frame rest)
    (unchanged : CodeKeeps around function frame keeps first) (reached : BlockRun around function first state)
    (returning : (block function)[state.place]? = some (.code (.ret returns)))
    (wanted : register = Reg.stack ∨ Returned frame keeps register) : state.read register = first.read register := by
  have bound := (List.getElem?_eq_some_iff.mp returning).1
  rw [List.getElem?_eq_getElem bound, Option.some.injEq] at returning
  have dropped := List.drop_eq_getElem_cons bound
  rw [returning] at dropped
  have phase := reached.phase words framed unchanged
  generalize (block function).drop state.place = ops at phase dropped
  cases phase with
  | atEntry => simp [Frame.entry_eq] at dropped
  | @entering _ done todo parts holds kept =>
    cases todo with
    | nil => exact absurd dropped (flatMap_ne_ret frame rest _ _)
    | cons save todo => simp at dropped
  | inside part within => exact absurd dropped (flatMap_ne_ret frame _ _ _)
  | @leaving _ todo done _ _ parts within =>
    cases todo using List.reverseRecOn <;> simp at dropped
  | atReturn stack kept =>
    rcases wanted with rfl | returned
    · exact stack
    · exact kept register returned

end Frame

section Homes

variable {first state next : MachineState μ}

theorem mem_code_of_block (member : .code instr ∈ block function) : instr ∈ function.code := by
  obtain ⟨first, inCode, found⟩ := List.mem_flatMap.mp member
  by_cases start : first = .start
  · subst first
    cases given : Frame.ofFunction? function <;> simp [instrOps, given, Frame.entry_eq] at found
  · rw [(mem_instrOps_code start found).1]
    exact Array.mem_toList_iff.mp inCode

theorem unchanged_of_homes (homes : function.WritesHomes Reg.result)
    (member : instr ∈ function.code) (taken : runOp around ops state (.code instr) = some next) (large : 9 ≤ register)
    (high : function.maxRegister < register) (uncalled : register = Reg.link → instr.isCall = false) :
    next.read register = state.read register := by
  obtain ⟨result, done, rfl⟩ := Option.map_eq_some_iff.mp taken
  have nonzero : register ≠ Reg.zero := by
    rintro rfl
    simp [Reg.zero] at large
  rw [MachineState.read_of_ne _ nonzero, MachineState.read_of_ne _ nonzero]
  rcases effect_cases done with ⟨change, _⟩ | ⟨written, value, change, writes, _⟩ | ⟨contents, change, called, _⟩
  · simp [change, registersAfter, Change.apply]
  · have different : register ≠ written := by
      rintro rfl
      have small := homes.writes instr member register writes
      simp only [Reg.result] at small
      omega
    simp [change, registersAfter, Change.apply, different]
  · have outside : ¬ (IsCallerSaved register ∨ register = Reg.link) := by
      rintro (low | isLink)
      · simp only [IsCallerSaved, Reg.result] at low
        omega
      · simp [uncalled isLink] at called
    simp [change, registersAfter, outside]

theorem codeKeeps_of_homes (homes : function.WritesHomes Reg.result)
    (given : Frame.ofFunction? function = some frame) : CodeKeeps around function frame (9 ≤ ·) first := by
  intro state next instr _ found taken register wanted unsaved
  have member := mem_code_of_block (List.mem_of_getElem? found)
  rw [Frame.mem_saves, Frame.mem_saved given] at unsaved
  have large : 9 ≤ register := by
    rcases wanted with rfl | ⟨_, large | saved⟩
    · decide
    · exact large
    · rw [Frame.mem_saves, Frame.mem_saved given] at saved
      exact absurd saved unsaved
  exact unchanged_of_homes homes member taken large (Nat.lt_of_not_le fun low => unsaved (Or.inr ⟨large, low⟩))
    fun isLink => absurd (Or.inl isLink) unsaved

theorem mem_instrOps_none (member : op ∈ instrOps none instr) : op = .code instr := by
  cases instr <;> simp [instrOps] at member <;> exact member

theorem bare_of_noFrame (frameless : Frame.ofFunction? function = none) :
    (∀ instr ∈ function.code, instr.isCall = false) ∧ function.maxRegister ≤ Reg.result := by
  simp only [Frame.ofFunction?] at frameless
  split at frameless
  · cases frameless
  · rename_i bare
    simp only [Bool.or_eq_true, Bool.not_eq_eq_eq_not, Bool.not_true, not_or,
      List.isEmpty_eq_false_iff, ne_eq, List.map_eq_nil_iff, List.range_eq_nil] at bare
    refine ⟨?_, by simp only [Reg.result]; omega⟩
    intro instr member
    by_contra called
    exact bare.1.1 (Array.any_eq_true'.mpr ⟨instr, member, by simpa using called⟩)

theorem read_of_noFrame (homes : function.WritesHomes Reg.result) (frameless : Frame.ofFunction? function = none)
    (reached : BlockRun around function first state) (large : 9 ≤ register) :
    state.read register = first.read register := by
  obtain ⟨quiet, low⟩ := bare_of_noFrame frameless
  induction reached with
  | start _ => rfl
  | @step state next op before found taken _ ih =>
    obtain ⟨instr, inCode, member⟩ := List.mem_flatMap.mp (List.mem_of_getElem? found)
    rw [frameless] at member
    obtain rfl := mem_instrOps_none member
    have inArray : instr ∈ function.code := Array.mem_toList_iff.mp inCode
    simp only [Reg.result] at low
    exact (unchanged_of_homes homes inArray taken large (by omega) fun _ => quiet instr inArray).trans ih

end Homes

theorem BlockRun.restores (words : KeepsWords around)
    (begins : function.Begins) (homes : function.WritesHomes Reg.result) {first last : MachineState μ}
    (reached : BlockRun around function first last)
    (returning : (block function)[last.place]? = some (.code (.ret returns))) (large : 9 ≤ register) :
    last.read register = first.read register := by
  obtain ⟨rest, code, entered⟩ := begins
  cases given : Frame.ofFunction? function with
  | none => exact read_of_noFrame homes given reached large
  | some frame =>
    refine Framed.atReturn words ⟨code, entered, given, homes.highest⟩ (codeKeeps_of_homes homes given) reached returning ?_
    exact (eq_or_ne register Reg.stack).imp_right fun other => ⟨other, Or.inl large⟩

theorem saved_of_written (homes : function.WritesHomes Reg.result)
    (member : .code instr ∈ block function) (writes : instr.def? = some register)
    (large : 9 ≤ register) : register ≤ 28 ∧ ∃ frame, Frame.ofFunction? function = some frame ∧ register ∈ frame.saved := by
  have high : register ≤ function.maxRegister := by
    rcases homes.writes instr (mem_code_of_block member) register writes with low | low
    · simp only [Reg.result] at low
      omega
    · exact low
  refine ⟨high.trans homes.highest, ?_⟩
  cases given : Frame.ofFunction? function with
  | none =>
    have low := (bare_of_noFrame given).2
    simp only [Reg.result] at low
    omega
  | some frame => exact ⟨frame, rfl, (Frame.mem_saved given).mpr ⟨large, high⟩⟩

end FplCompiler.Assembly

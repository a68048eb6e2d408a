import FplCompiler.Proofs.Allocation
import FplCompiler.Proofs.Simplification

/-!
Which registers finished code writes. Simplification never adds a write, so that code in which no two instructions
write one temporary keeps an index through all its rounds; allocation leaves machine registers only. The finish of such
a function can fail for want of a register and for nothing else.
-/

namespace FplCompiler.Ir

def Instr.WritesNoMore (old new : Instr) : Prop :=
  (new = .start ↔ old = .start) ∧ (new.def? = none ∨ new.def? = old.def?)

theorem Instr.WritesNoMore.refl (instr : Instr) : instr.WritesNoMore instr :=
  ⟨Iff.rfl, Or.inr rfl⟩

theorem Instr.WritesNoMore.trans {first second third : Instr} (lower : first.WritesNoMore second)
    (upper : second.WritesNoMore third) : first.WritesNoMore third := by
  refine ⟨upper.1.trans lower.1, ?_⟩
  rcases upper.2 with nothing | same
  · exact Or.inl nothing
  · rcases lower.2 with nothing | lowerSame
    · exact Or.inl (same.trans nothing)
    · exact Or.inr (same.trans lowerSame)

variable {register place : Nat} {instr : Instr} {rebuilt later : Function}

theorem Instr.WritesNoMore.write {old new : Instr} (less : old.WritesNoMore new)
    (writes : new.def? = some register) : old.def? = some register := by
  rcases less.2 with nothing | same
  · simp [nothing] at writes
  · exact same ▸ writes

theorem toList_modify_of_getElem? {code : Array Instr} (found : code[place]? = some instr)
    (other : Instr) : ∃ front back, code.toList = front ++ instr :: back ∧
      (code.modify place fun _ => other).toList = front ++ other :: back := by
  obtain ⟨bound, same⟩ := Array.getElem?_eq_some_iff.mp found
  refine ⟨code.toList.take place, code.toList.drop (place + 1), ?_, ?_⟩
  · rw [← same, ← Array.getElem_toList, ← List.drop_eq_getElem_cons, List.take_append_drop]
  · rw [Array.toList_modify, List.modify_eq_take_cons_drop (by simpa using bound)]

namespace Index

theorem definitions_addLabel (index : Index) (place : Nat) (instr : Instr) (register : Nat) :
    (index.addLabel place instr).definitions register = index.definitions register := by
  cases instr <;> rfl

theorem definitions_addDefinition (index : Index) {written : Nat} (place : Nat) (different : written ≠ register) :
    (index.addDefinition written place).definitions register = index.definitions register := by
  simp only [addDefinition, definitions]
  by_cases bound : register < index.defs.size
  · rw [getD_modify _ _ _ _ _ bound, if_neg different]
  · simp [bound]

theorem definitions_countUses (index : Index) (registers : List Reg) (register : Nat) :
    (registers.foldl countUse index).definitions register = index.definitions register := by
  rw [foldl_countUse_eq]
  rfl

def Apart (kind : Reg → RegKind) (code : List Instr) : Prop :=
  code.Pairwise fun first second =>
    ∀ register, kind register = .temp → first.def? = some register → second.def? ≠ some register

theorem addCode_of_apart {kind : Reg → RegKind} {code : List Instr} (place : Nat) (index : Index)
    (apart : Apart kind code)
    (fresh : ∀ register, kind register = .temp → index.definitions register ≠ [] →
      ∀ instr ∈ code, instr.def? ≠ some register) :
    (addCode kind code place index).2 = none := by
  induction code generalizing place index with
  | nil => rfl
  | cons instr rest ih =>
    obtain ⟨first, others⟩ := List.pairwise_cons.mp apart
    simp only [addCode]
    split
    · rename_i written defined
      split
      · rename_i again
        simp only [Bool.and_eq_true, decide_eq_true_eq, Bool.not_eq_eq_eq_not, Bool.not_true,
          List.isEmpty_eq_false_iff, definitions_addLabel] at again
        exact absurd defined (fresh written again.1 again.2 instr (by simp))
      · refine ih _ _ others ?_
        intro register temporary known other member
        rw [definitions_countUses] at known
        by_cases same : written = register
        · exact first other member register temporary (same ▸ defined)
        · rw [definitions_addDefinition _ _ same, definitions_addLabel] at known
          exact fresh register temporary known other (by simp [member])
    · refine ih _ _ others ?_
      intro register temporary known other member
      rw [definitions_countUses, definitions_addLabel] at known
      exact fresh register temporary known other (by simp [member])

theorem definitions_blank (registers labels register : Nat) : (blank registers labels).definitions register = [] := by
  by_cases bound : register < registers <;> simp [definitions, blank, bound]

end Index

namespace Function

variable {function : Function} {live : LiveMap} {kept : Function → Prop}

def WritesOnce (function : Function) : Prop :=
  Index.Apart (fun register => (function.info register).kind) function.code.toList

theorem rebuild_isOk (once : function.WritesOnce) : ∃ indexed, function.rebuild = .ok indexed := by
  have kept : Index.Apart (fun register => (function.info register).kind)
      (function.code.filter (· ≠ .nop)).toList := by
    rw [Array.toList_filter]
    exact once.sublist List.filter_sublist
  have added := Index.addCode_of_apart 0 (.blank function.registers.size function.labelCount) kept
    (fun register _ known => absurd (Index.definitions_blank _ _ register) known)
  simp only [rebuild]
  split
  · exact ⟨_, rfl⟩
  · rename_i index register failed
    rw [failed] at added
    cases added

/-- What a later stage of a function keeps: its registers and its frame, and it writes no more. -/
structure Slimmer (function later : Function) : Prop where
  registers : later.registers = function.registers
  maxRegister : later.maxRegister = function.maxRegister
  code : List.Forall₂ Instr.WritesNoMore function.code.toList later.code.toList

theorem Slimmer.refl (function : Function) : function.Slimmer function :=
  ⟨rfl, rfl, List.forall₂_same.mpr fun instr _ => .refl instr⟩

theorem Slimmer.trans {first second third : Function} (lower : first.Slimmer second) (upper : second.Slimmer third) :
    first.Slimmer third where
  registers := upper.registers.trans lower.registers
  maxRegister := upper.maxRegister.trans lower.maxRegister
  code := by
    have lowerCode := lower.code
    have upperCode := upper.code
    rw [List.forall₂_iff_get] at lowerCode upperCode ⊢
    refine ⟨lowerCode.1.trans upperCode.1, ?_⟩
    intro place bound thirdBound
    exact (lowerCode.2 place bound (lowerCode.1 ▸ bound)).trans (upperCode.2 place (lowerCode.1 ▸ bound) thirdBound)

theorem simpler?_writesNoMore {other : Instr} (simpler : function.simpler? place instr = some other) :
    instr.WritesNoMore other := by
  rcases simpler?_cases simpler with ⟨rfl, pure | ⟨label, rfl⟩ | ⟨label, rfl, _⟩⟩ | ⟨_, _, _, _, _, _, rfl, rfl⟩ |
    ⟨_, _, _, _, _, rfl, rfl⟩
  · refine ⟨?_, Or.inl rfl⟩
    cases instr <;> simp [Instr.isPure] at pure ⊢
  all_goals simp [Instr.WritesNoMore, Instr.def?]

theorem simplifyAt_slimmer (function : Function) (place : Nat) : function.Slimmer (function.simplifyAt place) := by
  simp only [simplifyAt]
  split
  · rename_i other found
    obtain ⟨instr, here, simpler⟩ := Option.bind_eq_some_iff.mp found
    refine ⟨rfl, rfl, List.forall₂_iff_get.mpr ⟨by simp, ?_⟩⟩
    intro position bound laterBound
    simp only [List.get_eq_getElem, Array.getElem_toList, Array.getElem_modify]
    split
    · subst position
      have old : function.code[place] = instr := by
        simpa [Array.getElem?_eq_getElem (show place < function.code.size by simpa using bound)] using here
      rw [old]
      exact simpler?_writesNoMore simpler
    · exact .refl _
  · exact .refl function

theorem simplifyOnce_slimmer (function : Function) : function.Slimmer function.simplifyOnce :=
  List.foldlRecOn _ _ (.refl function) fun current slimmer place _ => slimmer.trans (simplifyAt_slimmer current place)

theorem Slimmer.writesOnce (slimmer : function.Slimmer later) (once : function.WritesOnce) :
    later.WritesOnce := by
  have code := List.forall₂_iff_get.mp slimmer.code
  simp only [WritesOnce, Index.Apart, info, slimmer.registers, List.pairwise_iff_getElem] at once ⊢
  intro first second firstBound secondBound less register temporary firstWrites secondWrites
  have firstOld := (code.2 first (code.1 ▸ firstBound) firstBound).write firstWrites
  have secondOld := (code.2 second (code.1 ▸ secondBound) secondBound).write secondWrites
  exact once first second _ _ less register temporary firstOld secondOld

def Begins (function : Function) : Prop :=
  ∃ rest, function.code.toList = .start :: rest ∧ .start ∉ rest

def WritesOnly (allowed : Nat → Prop) (function : Function) : Prop :=
  ∀ instr ∈ function.code, ∀ register : Nat, instr.def? = some register → allowed register

theorem Slimmer.begins (slimmer : function.Slimmer later) (begins : function.Begins) :
    later.Begins := by
  obtain ⟨rest, code, once⟩ := begins
  have related := slimmer.code
  rw [code] at related
  obtain ⟨first, others, entry, below, laterCode⟩ := List.forall₂_cons_left_iff.mp related
  refine ⟨others, by rw [laterCode, entry.1.mpr rfl], ?_⟩
  intro member
  obtain ⟨place, bound, found⟩ := List.mem_iff_getElem.mp member
  rw [List.forall₂_iff_get] at below
  have again := (below.2 place (below.1 ▸ bound) bound).1.mp found
  exact once (again ▸ List.getElem_mem _)

theorem Slimmer.write (slimmer : function.Slimmer later)
    (member : instr ∈ later.code) (writes : instr.def? = some register) :
    ∃ old ∈ function.code, old.def? = some register := by
  obtain ⟨place, bound, rfl⟩ := List.mem_iff_getElem.mp (Array.mem_toList_iff.mpr member)
  have code := List.forall₂_iff_get.mp slimmer.code
  have oldBound : place < function.code.toList.length := code.1 ▸ bound
  exact ⟨_, Array.mem_toList_iff.mp (List.getElem_mem oldBound), (code.2 place oldBound bound).write writes⟩

theorem simplifyWithin_rounds
    (round : ∀ {before after : Function}, kept before → before.rebuild = .ok after → kept after ∧ kept after.simplifyOnce)
    {bound : Nat} {simplified : Function} (holds : kept function) (done : function.simplifyWithin bound = .ok simplified) :
    kept simplified := by
  induction bound generalizing function with
  | zero =>
    simp only [simplifyWithin, Except.ok.injEq] at done
    exact done ▸ holds
  | succ bound ih =>
    simp only [simplifyWithin] at done
    split at done
    · cases done
    · rename_i indexed made
      obtain ⟨indexedHolds, nextHolds⟩ := round holds made
      split at done
      · simp only [Except.ok.injEq] at done
        exact done ▸ indexedHolds
      · exact ih nextHolds done

theorem simplifyWithin_induction
    (rebuilt : ∀ {before after : Function}, kept before → before.rebuild = .ok after → kept after)
    (slimmed : ∀ {before after : Function}, kept before → before.Slimmer after → kept after) {bound : Nat}
    {simplified : Function} (holds : kept function) (done : function.simplifyWithin bound = .ok simplified) :
    kept simplified := by
  refine simplifyWithin_rounds (fun before made => ?_) holds done
  have indexedHolds := rebuilt before made
  exact ⟨indexedHolds, slimmed indexedHolds (simplifyOnce_slimmer _)⟩

theorem rebuild_begins (begins : function.Begins) (done : function.rebuild = .ok rebuilt) :
    rebuilt.Begins := by
  obtain ⟨rest, code, once⟩ := begins
  rw [rebuild_eq done]
  refine ⟨rest.filter (· ≠ .nop), by simp [code], ?_⟩
  intro member
  exact once (List.mem_of_mem_filter member)

theorem rebuild_writesOnce (once : function.WritesOnce) (done : function.rebuild = .ok rebuilt) :
    rebuilt.WritesOnce := by
  rw [rebuild_eq done]
  simp only [WritesOnce, Array.toList_filter] at once ⊢
  exact once.sublist List.filter_sublist

theorem simplifyWithin_isOk (bound : Nat) (once : function.WritesOnce) :
    ∃ simplified, function.simplifyWithin bound = .ok simplified := by
  induction bound generalizing function with
  | zero => exact ⟨function, rfl⟩
  | succ bound ih =>
    obtain ⟨indexed, made⟩ := rebuild_isOk once
    simp only [simplifyWithin, made]
    split
    · exact ⟨indexed, rfl⟩
    · exact ih (indexed.simplifyOnce_slimmer.writesOnce (rebuild_writesOnce once made))

def ListsWrites (function : Function) : Prop :=
  ∀ instr ∈ function.code, ∀ register : Nat, instr.def? = some register → register < function.registers.size →
    function.index.definitions register ≠ []

theorem rebuild_listsWrites (done : function.rebuild = .ok rebuilt) : rebuilt.ListsWrites := by
  intro instr member register writes bound
  obtain ⟨place, found⟩ := Array.mem_iff_getElem?.mp member
  have listed := ((rebuild_indexed done).definitions register bound place).mpr ⟨instr, found, writes⟩
  exact List.ne_nil_of_mem listed

theorem simplifyOnce_index (function : Function) : function.simplifyOnce.index = function.index := by
  refine List.foldlRecOn (motive := fun current : Function => current.index = function.index) _ _ rfl
    fun current same place _ => ?_
  rw [← same, simplifyAt]
  split <;> rfl

theorem simplifyOnce_listsWrites (lists : function.ListsWrites) : function.simplifyOnce.ListsWrites := by
  intro instr member register writes bound
  have slimmer := function.simplifyOnce_slimmer
  obtain ⟨old, oldMember, oldWrites⟩ := slimmer.write member writes
  rw [simplifyOnce_index]
  exact lists old oldMember register oldWrites (slimmer.registers ▸ bound)

theorem simplifyWithin_listsWrites {bound : Nat} {simplified : Function} (lists : function.ListsWrites)
    (done : function.simplifyWithin bound = .ok simplified) : simplified.ListsWrites := by
  refine simplifyWithin_rounds (fun _ made => ?_) lists done
  have rebuilt := rebuild_listsWrites made
  exact ⟨rebuilt, simplifyOnce_listsWrites rebuilt⟩

theorem simplify_listsWrites {simplified : Function} (done : function.simplify = .ok simplified) :
    simplified.ListsWrites := by
  simp only [simplify, simplifyBound, simplifyWithin] at done
  split at done
  · cases done
  · rename_i indexed made
    split at done
    · simp only [Except.ok.injEq] at done
      exact done ▸ rebuild_listsWrites made
    · exact simplifyWithin_listsWrites (simplifyOnce_listsWrites (rebuild_listsWrites made)) done

end Function

namespace Function

variable {function : Function} {live : LiveMap} {allocated : Function} {simplified : Function} {limit : Nat}
  {finished : Function} {steps : List (Reg × Reg)}

theorem le_maxRegister_noteHomes {step : Reg × Reg} (member : step ∈ steps) :
    step.2 ≤ (function.noteHomes steps).maxRegister := by
  have grows : ∀ (steps : List (Reg × Reg)) (highest : Nat),
      highest ≤ steps.foldl (fun highest step => max highest step.2) highest := by
    intro steps
    induction steps with
    | nil => exact fun highest => Nat.le_refl highest
    | cons step rest ih => exact fun highest => (Nat.le_max_left _ _).trans (ih _)
  simp only [noteHomes]
  generalize function.maxRegister = highest
  induction steps generalizing highest with
  | nil => cases member
  | cons first rest ih =>
    rcases List.mem_cons.mp member with rfl | later
    · exact (Nat.le_max_right _ _).trans (grows rest _)
    · exact ih later _

theorem maxRegister_noteHomes_le {bound : Nat} (small : function.maxRegister ≤ bound)
    (range : ∀ step ∈ steps, step.2 ≤ bound) : (function.noteHomes steps).maxRegister ≤ bound := by
  simp only [noteHomes]
  revert small
  generalize function.maxRegister = highest
  induction steps generalizing highest with
  | nil => exact id
  | cons first rest ih =>
    intro small
    obtain ⟨own, others⟩ := List.forall_mem_cons.mp range
    exact ih others _ (Nat.max_le.mpr ⟨small, own⟩)

/-- What the code of a function may write: machine registers up to a limit, and registers that the function has. No
register above those that values may have counts as in use. -/
structure WritesFit (limit : Nat) (function : Function) : Prop where
  machine : Reg.machineCount ≤ function.registers.size
  highest : function.maxRegister ≤ 28
  kinds : ∀ register : Nat, register < Reg.machineCount → (function.info register).kind = .machine
  writes : function.WritesOnly fun register =>
    register ≤ limit ∨ (Reg.machineCount ≤ register ∧ register < function.registers.size)

theorem WritesFit.rebuild (fit : function.WritesFit limit)
    (done : function.rebuild = .ok rebuilt) : rebuilt.WritesFit limit := by
  rw [rebuild_eq done]
  refine ⟨fit.machine, fit.highest, fit.kinds, ?_⟩
  intro instr member
  exact fit.writes instr (Array.mem_filter.mp member).1

theorem WritesFit.slimmer (fit : function.WritesFit limit)
    (slimmer : function.Slimmer later) : later.WritesFit limit := by
  refine ⟨slimmer.registers ▸ fit.machine, slimmer.maxRegister ▸ fit.highest, ?_, ?_⟩
  · simpa only [info, slimmer.registers] using fit.kinds
  · intro instr member register writes
    obtain ⟨old, oldMember, oldWrites⟩ := slimmer.write member writes
    rw [slimmer.registers]
    exact fit.writes old oldMember register oldWrites

theorem Instr.def?_mapRegisters_cases {name : Reg → Reg} (writes : (instr.mapRegisters name).def? = some register) :
    ∃ old : Nat, instr.def? = some old ∧ (register = name old ∨ (old = Reg.result ∧ register = old)) := by
  cases instr <;> simp only [Instr.mapRegisters, Instr.def?, Option.some.injEq, reduceCtorEq] at writes ⊢ <;>
    first
    | exact ⟨_, rfl, Or.inl writes.symm⟩
    | (split at writes <;> simp_all)

/-- Only machine registers are written: those up to a limit, and those that count for the highest in use. -/
structure WritesHomes (limit : Nat) (function : Function) : Prop where
  highest : function.maxRegister ≤ 28
  writes : function.WritesOnly fun register => register ≤ limit ∨ register ≤ function.maxRegister

theorem allocate_origin (lists : function.ListsWrites) (done : function.allocate live = .ok allocated) :
    ∃ steps : List (Reg × Reg), allocated.maxRegister = (function.noteHomes steps).maxRegister ∧
      (∀ step ∈ steps, 1 ≤ step.2 ∧ step.2 ≤ 28) ∧
      ∀ renamed ∈ allocated.code, ∀ register : Nat, renamed.def? = some register →
        ∃ instr ∈ function.code, ∃ old : Nat, instr.def? = some old ∧
          ((register = old ∧ (old < Reg.machineCount ∨ function.registers.size ≤ old)) ∨
            (Reg.machineCount ≤ old ∧ (old, register) ∈ steps)) := by
  simp only [allocate] at done
  split at done
  · cases done
  rename_i final allocation
  simp only [Except.ok.injEq] at done
  subst allocated
  obtain ⟨homed, held⟩ := (allocation_reaches function live).1 final allocation
  have size := size_interference function live
  refine ⟨final.steps, rfl, homed.range, ?_⟩
  intro renamed member register writes
  obtain ⟨instr, inCode, rfl⟩ := Array.mem_map.mp member
  obtain ⟨old, oldWrites, origin⟩ := Instr.def?_mapRegisters_cases writes
  refine ⟨instr, inCode, old, oldWrites, ?_⟩
  rcases origin with rfl | ⟨rfl, rfl⟩
  · by_cases bound : old < function.registers.size
    · by_cases small : old < Reg.machineCount
      · simp [homed.machine old small (size ▸ bound), small]
      · have large : Reg.machineCount ≤ old := Nat.not_lt.mp small
        have needed : old ∈ function.coloringOrder (function.interference live) :=
          mem_coloringOrder.mpr ⟨bound, large, Or.inr (lists instr inCode old oldWrites bound)⟩
        obtain ⟨home, given⟩ := Option.isSome_iff_exists.mp (held old needed)
        rw [given]
        exact Or.inr ⟨large, homed.given old home large given⟩
    · have homeless : final.home? old = none := by simp [Allocation.home?, homed.assignedSize, size, bound]
      exact Or.inl ⟨by rw [homeless, Option.getD_none], Or.inr (Nat.not_lt.mp bound)⟩
  · exact Or.inl ⟨rfl, Or.inl (by decide)⟩

theorem allocate_writes (fit : function.WritesFit limit)
    (lists : function.ListsWrites) (done : function.allocate live = .ok allocated) : allocated.WritesHomes limit := by
  obtain ⟨steps, highest, range, origin⟩ := allocate_origin lists done
  refine ⟨highest ▸ maxRegister_noteHomes_le fit.highest fun step member => (range step member).2, ?_⟩
  intro renamed member register writes
  obtain ⟨instr, inCode, old, oldWrites, ⟨rfl, outside⟩ | ⟨large, given⟩⟩ := origin renamed member register writes
  · rcases fit.writes instr inCode register oldWrites with low | ⟨large, bound⟩
    · exact Or.inl low
    · omega
  · rw [highest]
    exact Or.inr (le_maxRegister_noteHomes given)

theorem allocate_begins (begins : function.Begins) (done : function.allocate live = .ok allocated) :
    allocated.Begins := by
  obtain ⟨rest, code, once⟩ := begins
  simp only [allocate] at done
  split at done
  · cases done
  simp only [Except.ok.injEq] at done
  subst allocated
  refine ⟨_, by rw [Array.toList_map, code]; rfl, ?_⟩
  intro member
  obtain ⟨instr, inRest, same⟩ := List.mem_map.mp member
  have start : instr = .start := by
    cases instr <;> simp_all [Instr.mapRegisters]
  exact once (start ▸ inRest)

theorem allocate_registers (done : function.allocate live = .ok allocated) :
    allocated.registers = function.registers := by
  simp only [allocate] at done
  split at done
  · cases done
  · simp only [Except.ok.injEq] at done
    exact done ▸ rfl

theorem finish_eq (done : function.finish = .ok finished) :
    ∃ simplified allocated, function.simplify = .ok simplified ∧ simplified.allocate simplified.liveMap = .ok allocated ∧
      allocated.simplify = .ok finished := by
  simp only [finish, bind, Except.bind] at done
  split at done
  · cases done
  rename_i simplified simplifies
  split at done
  · cases done
  rename_i allocated allocates
  exact ⟨simplified, allocated, simplifies, allocates, done⟩

theorem WritesFit.simplify (fit : function.WritesFit limit)
    (done : function.simplify = .ok simplified) : simplified.WritesFit limit :=
  simplifyWithin_induction .rebuild .slimmer fit done

theorem Begins.simplify (begins : function.Begins) (done : function.simplify = .ok simplified) :
    simplified.Begins :=
  simplifyWithin_induction rebuild_begins (fun begins slimmer => slimmer.begins begins) begins done

theorem simplify_registers (done : function.simplify = .ok simplified) :
    simplified.registers = function.registers := by
  refine @simplifyWithin_induction function (fun later => later.registers = function.registers) ?_ ?_ _ _ rfl done
  · exact fun kept made => (congrArg Function.registers (rebuild_eq made)).trans kept
  · exact fun kept slimmer => slimmer.registers.trans kept

theorem allocate_writesOnce
    (kinds : ∀ register : Nat, register < Reg.machineCount → (function.info register).kind = .machine)
    (lists : function.ListsWrites) (done : function.allocate live = .ok allocated) : allocated.WritesOnce := by
  obtain ⟨steps, _, range, origin⟩ := allocate_origin lists done
  refine List.pairwise_of_forall_mem_list ?_
  intro first member second _ register temporary writes
  have machine : (function.info register).kind = .machine := by
    obtain ⟨_, _, old, _, ⟨rfl, small | outside⟩ | ⟨_, given⟩⟩ :=
      origin first (Array.mem_toList_iff.mp member) register writes
    · exact kinds register small
    · simp [info, Array.getElem?_eq_none outside, default, instInhabitedRegInfo.default,
        instInhabitedRegKind.default]
    · exact kinds register (Nat.lt_of_le_of_lt (range _ given).2 (by decide))
  simp only [info, allocate_registers done] at temporary machine
  rw [machine] at temporary
  cases temporary

theorem finish_error (kinds : ∀ register : Nat, register < Reg.machineCount → (function.info register).kind = .machine)
    (once : function.WritesOnce) {failure : Failure} (failed : function.finish = .error failure) :
    ∃ register, failure.error = .noRegister register := by
  obtain ⟨simplified, simplifies⟩ := simplifyWithin_isOk function.simplifyBound once
  simp only [finish, bind, Except.bind, Function.simplify, simplifies] at failed
  split at failed
  · rename_i problem allocates
    cases failed
    simp only [allocate] at allocates
    split at allocates
    · simp only [Except.error.injEq] at allocates
      rw [← allocates]
      exact ⟨_, rfl⟩
    · cases allocates
  · rename_i allocated allocates
    have sameKinds : ∀ register : Nat, register < Reg.machineCount → (simplified.info register).kind = .machine := by
      simpa only [info, simplify_registers simplifies] using kinds
    obtain ⟨finished, succeeds⟩ := simplifyWithin_isOk allocated.simplifyBound
      (allocate_writesOnce sameKinds (simplify_listsWrites simplifies) allocates)
    rw [succeeds] at failed
    cases failed

theorem WritesHomes.simplify (homes : function.WritesHomes limit)
    (done : function.simplify = .ok simplified) : simplified.WritesHomes limit := by
  refine simplifyWithin_induction ?_ ?_ homes done
  · intro before after kept rebuilt
    rw [rebuild_eq rebuilt]
    refine ⟨kept.highest, ?_⟩
    intro instr member
    exact kept.writes instr (Array.mem_filter.mp member).1
  · intro before after kept slimmer
    refine ⟨slimmer.maxRegister ▸ kept.highest, ?_⟩
    intro instr member register writes
    obtain ⟨old, oldMember, oldWrites⟩ := slimmer.write member writes
    rw [slimmer.maxRegister]
    exact kept.writes old oldMember register oldWrites

theorem finish_writesHomes (fit : function.WritesFit limit)
    (done : function.finish = .ok finished) : finished.WritesHomes limit := by
  obtain ⟨simplified, allocated, simplifies, allocates, resimplifies⟩ := finish_eq done
  exact (allocate_writes (fit.simplify simplifies) (simplify_listsWrites simplifies) allocates).simplify
    resimplifies

theorem finish_begins (begins : function.Begins) (done : function.finish = .ok finished) :
    finished.Begins := by
  obtain ⟨simplified, allocated, simplifies, allocates, resimplifies⟩ := finish_eq done
  exact (allocate_begins (begins.simplify simplifies) allocates).simplify resimplifies

end Function

end FplCompiler.Ir

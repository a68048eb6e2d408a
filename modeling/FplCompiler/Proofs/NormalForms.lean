import FplCompiler.Proofs.SingleWrites

/-!
Simplification comes to rest. Each replacement leaves less to replace, so the rounds end without any bound on them, in
code that a further round leaves as it is. They fail if two instructions write one temporary and in no other case, and
never after allocation.
-/

namespace FplCompiler.Ir

def Instr.replacements : Instr → Nat
  | .alu _ _ _ _ => 3
  | .aluImm _ _ _ _ => 2
  | .move _ _ | .constant _ _ | .jump _ | .label _ => 1
  | _ => 0

def Instr.allReplacements : List Instr → Nat
  | [] => 0
  | instr :: rest => instr.replacements + allReplacements rest

theorem Instr.allReplacements_append (first second : List Instr) :
    allReplacements (first ++ second) = allReplacements first + allReplacements second := by
  induction first with
  | nil => simp [allReplacements]
  | cons instr rest ih =>
    simp only [List.cons_append, allReplacements]
    omega

variable {place : Nat}

namespace Index

variable {kind : Reg → RegKind} {index : Index}

theorem addCode_cons {instr : Instr} {rest : List Instr} (done : (addCode kind (instr :: rest) place index).2 = none) :
    (∀ register, instr.def? = some register → kind register = .temp → index.definitions register = []) ∧
      (addCode kind rest (place + 1) (index.add (instr, place))).2 = none := by
  simp only [addCode] at done
  split at done
  case h_1 written defined =>
    split at done
    · cases done
    · rename_i first
      refine ⟨?_, by simpa only [add, defined] using done⟩
      rintro register writes temporary
      obtain rfl : written = register := Option.some.inj (defined.symm.trans writes)
      simpa [temporary, definitions_addLabel] using first
  case h_2 undefined =>
    exact ⟨by simp [undefined], by simpa only [add, undefined] using done⟩

theorem apart_of_addCode {code : List Instr} (sized : ∀ register, kind register = .temp → register < index.defs.size)
    (done : (addCode kind code place index).2 = none) :
    Apart kind code ∧ ∀ register, kind register = .temp → index.definitions register ≠ [] →
      ∀ instr ∈ code, instr.def? ≠ some register := by
  induction code generalizing place index with
  | nil => exact ⟨.nil, by simp⟩
  | cons instr rest ih =>
    obtain ⟨first, others⟩ := addCode_cons done
    have resized : ∀ register, kind register = .temp → register < (index.add (instr, place)).defs.size := by
      intro register temporary
      rw [defs_add]
      cases instr.def? <;> simpa using sized register temporary
    obtain ⟨apart, fresh⟩ := ih resized others
    have known : ∀ register, kind register = .temp →
        index.definitions register ≠ [] ∨ instr.def? = some register →
        ∀ other ∈ rest, other.def? ≠ some register := by
      intro register temporary before
      refine fresh register temporary ?_
      rw [definitions_add _ _ _ _ (sized register temporary)]
      rcases before with listed | writes
      · simp [listed]
      · simp [writes]
    refine ⟨List.pairwise_cons.mpr ⟨?_, apart⟩, ?_⟩
    · intro other member register temporary writes
      exact known register temporary (Or.inr writes) other member
    · intro register temporary listed other member writes
      rcases List.mem_cons.mp member with rfl | later
      · exact listed (first register writes temporary)
      · exact known register temporary (Or.inl listed) other later writes

end Index

namespace Function

variable {function settled : Function} {rebuilt : Function}

def WritesTwice (function : Function) : Prop :=
  ∃ register first second : Nat, (function.info register).kind = .temp ∧ first < second ∧
    function.code[first]?.bind Instr.def? = some register ∧ function.code[second]?.bind Instr.def? = some register

theorem not_writesOnce_iff : ¬ function.WritesOnce ↔ function.WritesTwice := by
  simp only [WritesOnce, Index.Apart, List.pairwise_iff_getElem, WritesTwice, Option.bind_eq_some_iff,
    Array.getElem?_eq_some_iff, Array.getElem_toList]
  push Not
  constructor
  · rintro ⟨first, second, firstBound, secondBound, less, register, temporary, firstWrites, secondWrites⟩
    exact ⟨register, first, second, temporary, less, ⟨_, ⟨firstBound, rfl⟩, firstWrites⟩,
      ⟨_, ⟨secondBound, rfl⟩, secondWrites⟩⟩
  · rintro ⟨register, first, second, temporary, less, ⟨_, ⟨firstBound, rfl⟩, firstWrites⟩,
      ⟨_, ⟨secondBound, rfl⟩, secondWrites⟩⟩
    exact ⟨first, second, firstBound, secondBound, less, register, temporary, firstWrites, secondWrites⟩

theorem lt_of_isTemp {register : Nat} (temporary : (function.info register).kind = .temp) :
    register < function.registers.size := by
  apply lt_of_isVirtual
  simp [isMachine, temporary]

theorem writesOnce_of_rebuild (done : function.rebuild = .ok rebuilt) : function.WritesOnce := by
  simp only [rebuild] at done
  split at done
  case h_2 => cases done
  rename_i index added
  have kept := (Index.apart_of_addCode (fun register temporary => by
    simpa [Index.blank] using lt_of_isTemp temporary) (congrArg Prod.snd added)).1
  rw [Array.toList_filter, Index.Apart, List.pairwise_filter] at kept
  refine kept.imp ?_
  intro first second apart register temporary firstWrites secondWrites
  have written : ∀ {instr : Instr}, instr.def? = some register → decide (instr ≠ .nop) = true := by
    rintro instr writes
    cases instr <;> simp [Instr.def?] at writes ⊢
  exact apart (written firstWrites) (written secondWrites) register temporary firstWrites secondWrites

theorem rebuild_rebuild (done : function.rebuild = .ok rebuilt) : rebuilt.rebuild = .ok rebuilt := by
  obtain ⟨again, made⟩ := rebuild_isOk (rebuild_writesOnce (writesOnce_of_rebuild done) done)
  rw [made, rebuild_eq made, rebuild_eq done]
  simp

def replacements (function : Function) : Nat :=
  Instr.allReplacements function.code.toList

theorem replacements_le (function : Function) : function.replacements ≤ 3 * function.code.size := by
  simp only [replacements, ← Array.length_toList]
  induction function.code.toList with
  | nil => exact Nat.le_refl 0
  | cons instr rest ih =>
    have own : instr.replacements ≤ 3 := by cases instr <;> simp [Instr.replacements]
    simp only [Instr.allReplacements, List.length_cons]
    omega

theorem rebuild_replacements (done : function.rebuild = .ok rebuilt) :
    rebuilt.replacements = function.replacements := by
  simp only [replacements, rebuild_eq done, Array.toList_filter]
  induction function.code.toList with
  | nil => rfl
  | cons instr rest ih =>
    by_cases deleted : instr = .nop
    · simpa [deleted, Instr.allReplacements, Instr.replacements] using ih
    · simpa [deleted, Instr.allReplacements] using ih

theorem simpler?_replacements {instr other : Instr} (simpler : function.simpler? place instr = some other) :
    other.replacements < instr.replacements := by
  rcases simpler?_cases simpler with ⟨rfl, pure | ⟨label, rfl⟩ | ⟨label, rfl, _⟩⟩ | ⟨_, _, _, _, _, _, rfl, rfl⟩ |
    ⟨_, _, _, _, _, rfl, rfl⟩
  · cases instr <;> simp [Instr.isPure] at pure <;> simp [Instr.replacements]
  all_goals simp [Instr.replacements]

def Irreducible (function : Function) : Prop :=
  ∀ place instr, function.code[place]? = some instr → function.simpler? place instr = none

theorem simplifyAt_cases (function : Function) (place : Nat) :
    (function.simplifyAt place = function ∧ function.code[place]?.bind (function.simpler? place) = none) ∨
      (function.simplifyAt place).replacements < function.replacements := by
  simp only [simplifyAt]
  split
  case h_2 unchanged => exact Or.inl ⟨rfl, unchanged⟩
  case h_1 other found =>
    obtain ⟨instr, here, simpler⟩ := Option.bind_eq_some_iff.mp found
    obtain ⟨front, back, before, after⟩ := toList_modify_of_getElem? here other
    have less := simpler?_replacements simpler
    simp only [replacements, before, after, Instr.allReplacements_append, Instr.allReplacements]
    omega

theorem foldl_simplifyAt_replacements_le (places : List Nat) (function : Function) :
    (places.foldl simplifyAt function).replacements ≤ function.replacements := by
  refine List.foldlRecOn (motive := fun current : Function => current.replacements ≤ function.replacements)
    _ _ (Nat.le_refl _) fun current fewer place _ => ?_
  rcases simplifyAt_cases current place with ⟨same, _⟩ | less
  · rw [same]
    exact fewer
  · exact less.le.trans fewer

theorem simplifyOnce_cases (function : Function) :
    (function.simplifyOnce = function ∧ function.Irreducible) ∨
      function.simplifyOnce.replacements < function.replacements := by
  have passes : ∀ places : List Nat, (places.foldl simplifyAt function = function ∧
      ∀ place ∈ places, function.code[place]?.bind (function.simpler? place) = none) ∨
      (places.foldl simplifyAt function).replacements < function.replacements := by
    intro places
    induction places with
    | nil => exact Or.inl ⟨rfl, by simp⟩
    | cons place rest ih =>
      simp only [List.foldl_cons, List.forall_mem_cons]
      rcases simplifyAt_cases function place with ⟨same, first⟩ | less
      · rw [same]
        exact ih.imp_left fun others => ⟨others.1, first, others.2⟩
      · exact Or.inr ((foldl_simplifyAt_replacements_le rest _).trans_lt less)
  refine (passes (List.range function.code.size)).imp_left fun pass => ⟨pass.1, ?_⟩
  intro place instr found
  have inside := (Array.getElem?_eq_some_iff.mp found).1
  simpa [found] using pass.2 place (List.mem_range.mpr inside)

inductive Settles : Function → Outcome → Prop
  | fails {function : Function} {failure : Failure} : function.rebuild = .error failure → Settles function (.error failure)
  | rests {function indexed : Function} : function.rebuild = .ok indexed → indexed.simplifyOnce.code = indexed.code →
      Settles function (.ok indexed)
  | again {function indexed : Function} {outcome : Outcome} : function.rebuild = .ok indexed →
      indexed.simplifyOnce.code ≠ indexed.code → Settles indexed.simplifyOnce outcome → Settles function outcome

theorem simplifyWithin_settles {bound : Nat} (enough : function.replacements < bound) :
    Settles function (function.simplifyWithin bound) := by
  induction bound generalizing function with
  | zero => omega
  | succ bound ih =>
    simp only [simplifyWithin]
    split
    case h_1 failure failed => exact .fails failed
    case h_2 indexed made =>
      split
      case isTrue unchanged => exact .rests made unchanged
      case isFalse changed =>
        refine .again made changed (ih ?_)
        have less := (simplifyOnce_cases indexed).resolve_left fun same => changed (congrArg code same.1)
        have kept := rebuild_replacements made
        omega

theorem simplify_settles (function : Function) : Settles function function.simplify :=
  simplifyWithin_settles (Nat.lt_succ_of_le function.replacements_le)

def Normal (function : Function) : Prop :=
  function.rebuild = .ok function ∧ function.Irreducible ∧ function.simplifyOnce = function

theorem Settles.normal (settles : Settles function (.ok settled)) : settled.Normal := by
  generalize same : (Except.ok settled : Outcome) = outcome at settles
  induction settles with
  | fails => cases same
  | rests made unchanged =>
    cases same
    refine ⟨rebuild_rebuild made, ?_⟩
    refine ((simplifyOnce_cases settled).resolve_right ?_).symm
    simp [replacements, unchanged]
  | again _ _ _ ih => exact ih same

theorem Settles.writesOnce (settles : Settles function (.ok settled)) : function.WritesOnce := by
  cases settles with
  | rests made _ => exact writesOnce_of_rebuild made
  | again made _ _ => exact writesOnce_of_rebuild made

theorem Settles.error_cases {failure : Failure} (settles : Settles function (.error failure)) :
    function.WritesTwice ∧ ∃ register, failure.error = .writtenTwice register := by
  generalize same : (Except.error failure : Outcome) = outcome at settles
  induction settles with
  | fails failed =>
    cases same
    refine ⟨not_writesOnce_iff.mp fun once => ?_, ?_⟩
    · obtain ⟨indexed, made⟩ := rebuild_isOk once
      rw [made] at failed
      cases failed
    · simp only [rebuild] at failed
      split at failed
      · cases failed
      · cases failed
        exact ⟨_, rfl⟩
  | rests => cases same
  | @again earlier indexed outcome made changed _ ih =>
    -- a later round has no reason to fail that this one had not
    obtain ⟨twice, _⟩ := ih same
    have once := rebuild_writesOnce (writesOnce_of_rebuild made) made
    exact absurd (indexed.simplifyOnce_slimmer.writesOnce once) (not_writesOnce_iff.mpr twice)

/-- The rounds of simplification end, with an error exactly if two instructions write one temporary, and else in code
that another round leaves as it is. After an allocation they never fail. -/
theorem simplify_normalises (function : Function) :
    Settles function function.simplify ∧
    (∀ failure, function.simplify = .error failure → ∃ register, failure.error = .writtenTwice register) ∧
    ((∃ failure, function.simplify = .error failure) ↔ function.WritesTwice) ∧
    (∀ settled, function.simplify = .ok settled → settled.Normal) ∧
    ((∀ register : Nat, register < Reg.machineCount → (function.info register).kind = .machine) →
      ∀ settled live allocated, function.simplify = .ok settled → settled.allocate live = .ok allocated →
        ∃ final, allocated.simplify = .ok final) := by
  have settles := simplify_settles function
  refine ⟨settles, ?_, ⟨?_, ?_⟩, ?_, ?_⟩
  · intro failure failed
    exact (failed ▸ settles).error_cases.2
  · rintro ⟨failure, failed⟩
    exact (failed ▸ settles).error_cases.1
  · intro twice
    cases outcome : function.simplify with
    | error failure => exact ⟨failure, rfl⟩
    | ok settled => exact absurd (outcome ▸ settles).writesOnce (not_writesOnce_iff.mpr twice)
  · intro settled done
    exact (done ▸ settles).normal
  · intro kinds settled live allocated done allocates
    have sameKinds : ∀ register : Nat, register < Reg.machineCount → (settled.info register).kind = .machine := by
      simpa only [info, simplify_registers done] using kinds
    exact simplifyWithin_isOk _ (allocate_writesOnce sameKinds (simplify_listsWrites done) allocates)

theorem simplify_normalises_constantSum :
    (∀ register : Nat, register < Reg.machineCount → (constantSum.info register).kind = .machine) ∧
      ∃ settled, constantSum.simplify = .ok settled ∧ settled.Normal ∧
        ∃ allocated, settled.allocate settled.liveMap = .ok allocated ∧ ∃ final, allocated.simplify = .ok final := by
  have kinds : ∀ register : Nat, register < Reg.machineCount → (constantSum.info register).kind = .machine := by decide
  obtain ⟨_, _, _, normal, again⟩ := simplify_normalises constantSum
  have accepted : (constantSum.simplify.bind fun settled => settled.allocate settled.liveMap).isOk = true := by
    decide +kernel
  cases done : constantSum.simplify with
  | error failure => simp [done, Except.bind, Except.toBool] at accepted
  | ok settled =>
    rw [done] at accepted
    cases allocates : settled.allocate settled.liveMap with
    | error failure => simp [allocates, Except.bind, Except.toBool] at accepted
    | ok allocated =>
      exact ⟨kinds, settled, rfl, normal settled done, allocated, allocates,
        again kinds settled _ allocated done allocates⟩

end Function

end FplCompiler.Ir

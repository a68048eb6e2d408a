import FplCompiler.Proofs.Liveness

/-!
A register is live before an instruction exactly if some path along the flow of control reads it before anything writes
it. A sweep adds a register only where a path begins, and the sets in which the sweeps end follow every path backwards
from its read.
-/

namespace FplCompiler.Ir

/-- Where control may go from a place: on to the next one, unless the instruction always leaves, and to the label that
it may jump to. -/
inductive Flows (code : Array Instr) (place : Nat) : Nat → Prop
  | onward {instr : Instr} (found : code[place]? = some instr) (stays : ∀ label, instr ≠ .jump label)
      (goesOn : ∀ returns, instr ≠ .ret returns) : Flows code place (place + 1)
  | away {instr : Instr} {label target : Nat} (found : code[place]? = some instr)
      (jumps : instr.target? = some label) (placed : labelPlace? code label = some target) : Flows code place target

structure ReadAlong (code : Array Instr) (register : Nat) (path : List Nat) : Prop where
  chain : path.IsChain (Flows code)
  reads : ∃ last instr, path.getLast? = some last ∧ code[last]? = some instr ∧ register ∈ instr.uses
  keeps : ∀ place ∈ path.dropLast, ∀ instr, code[place]? = some instr → instr.def? ≠ some register

variable {instr : Instr} {code : Array Instr} {path : List Nat}

theorem ReadAlong.single {register place : Nat}
    (found : code[place]? = some instr) (used : register ∈ instr.uses) : ReadAlong code register [place] :=
  ⟨.singleton place, ⟨place, instr, rfl, found, used⟩, by simp⟩

theorem ReadAlong.cons {register place next : Nat}
    (reading : ReadAlong code register path) (starts : path.head? = some next) (found : code[place]? = some instr)
    (flows : Flows code place next) (kept : instr.def? ≠ some register) :
    ReadAlong code register (place :: path) := by
  obtain ⟨rest, rfl⟩ : ∃ rest, path = next :: rest := by
    cases path with
    | nil => cases starts
    | cons first rest =>
      obtain rfl : first = next := by simpa using starts
      exact ⟨rest, rfl⟩
  refine ⟨.cons_cons flows reading.chain, by simpa using reading.reads, ?_⟩
  intro other member otherInstr otherFound
  rcases List.mem_cons.mp (by simpa using member) with rfl | later
  · rw [found, Option.some.injEq] at otherFound
    exact otherFound ▸ kept
  · exact reading.keeps other later otherInstr otherFound

namespace Function

variable {function : Function} {live : LiveMap}

def LabelsIndexed (function : Function) : Prop :=
  ∀ instr ∈ function.code, ∀ label, instr.target? = some label →
    function.index.position? label = labelPlace? function.code label

theorem mem_successors_iff (labels : function.LabelsIndexed) {place next : Nat}
    (found : function.code[place]? = some instr) :
    next ∈ function.successors place instr ↔ Flows function.code place next := by
  have indexed := labels instr (Array.mem_of_getElem? found)
  constructor
  · intro member
    cases instr with
    | jump label =>
      rw [successors, indexed label rfl, Option.mem_toList] at member
      exact .away found rfl member
    | branch op left right label =>
      rw [successors, indexed label rfl, List.mem_cons, Option.mem_toList] at member
      rcases member with rfl | placed
      · exact .onward found (by simp) (by simp)
      · exact .away found rfl placed
    | ret returns => cases member
    | _ =>
      obtain rfl := List.mem_singleton.mp member
      exact .onward found (by simp) (by simp)
  · rintro (⟨otherFound, stays, goesOn⟩ | ⟨otherFound, jumps, placed⟩) <;>
      rw [found, Option.some.injEq] at otherFound <;> subst otherFound
    · cases instr <;> simp_all [successors]
    · cases instr <;> simp only [Instr.target?, Option.some.injEq, reduceCtorEq] at jumps <;> subst jumps <;>
        simp [successors, indexed _ rfl, placed]

def Justified (function : Function) (live : LiveMap) : Prop :=
  ∀ place register : Nat, register ∈ live.before place →
    ∃ path, path.head? = some place ∧ ReadAlong function.code register path

theorem Justified.updateLive (labels : function.LabelsIndexed)
    (size : live.size = function.code.size + 1) (justified : function.Justified live) (place : Nat) :
    function.Justified (function.updateLive live place) := by
  cases found : function.code[place]? with
  | none => simpa [Function.updateLive, found] using justified
  | some instr =>
    intro other register member
    rw [before_updateLive size found] at member
    split at member
    · subst other
      rcases mem_liveBefore.mp member with ⟨used, _⟩ | ⟨⟨next, successor, live⟩, kept⟩
      · exact ⟨[place], rfl, .single found used⟩
      · obtain ⟨path, starts, reading⟩ := justified next register live
        exact ⟨place :: path, rfl, reading.cons starts found ((mem_successors_iff labels found).mp successor) kept⟩
    · exact justified other register member

theorem Stable.live_of_readAlong (stable : function.Stable live) (labels : function.LabelsIndexed)
    {register : Nat} (nonzero : register ≠ Reg.zero)
    (reading : ReadAlong function.code register path) {place : Nat} (starts : path.head? = some place) :
    register ∈ live.before place := by
  induction path generalizing place with
  | nil => cases starts
  | cons first rest ih =>
    obtain rfl : first = place := by simpa using starts
    cases rest with
    | nil =>
      obtain ⟨last, instr, isLast, found, used⟩ := reading.reads
      obtain rfl : first = last := by simpa using isLast
      exact stable.live_of_use found used nonzero
    | cons next others =>
      have flows := (List.isChain_cons_cons.mp reading.chain).1
      have later : ReadAlong function.code register (next :: others) :=
        ⟨(List.isChain_cons_cons.mp reading.chain).2, by simpa using reading.reads, fun place member =>
          reading.keeps place (by simpa using Or.inr member)⟩
      have live := ih later rfl
      obtain ⟨instr, found⟩ : ∃ instr, function.code[first]? = some instr := by
        rcases flows with ⟨found, _, _⟩ | ⟨found, _, _⟩ <;> exact ⟨_, found⟩
      exact stable.live_of_successor found ((mem_successors_iff labels found).mpr flows) live
        (reading.keeps first (by simp) instr found)

/-- Sweeping ends, and a register other than zero is then live before an instruction if and only if a path from there
reads it before anything on the path has written it. -/
theorem live_iff_readAlong (function : Function) (labels : function.LabelsIndexed) :
    (∃ sweeps, function.liveMap = function.sweepLive^[sweeps] function.noneLive ∧
      function.sweepLive function.liveMap = function.liveMap) ∧
    ∀ place register : Nat, register ≠ Reg.zero →
      (register ∈ function.liveMap.before place ↔
        ∃ path, path.head? = some place ∧ ReadAlong function.code register path) := by
  constructor
  · obtain ⟨sweeps, same, unchanged, _⟩ := liveMap_settles function
    exact ⟨sweeps, same, unchanged⟩
  · intro place register nonzero
    constructor
    · have justified : function.Justified function.liveMap :=
        liveMap_induction (fun place register member => absurd member (not_mem_before_replicate _ place register))
          fun _ place size justified => justified.updateLive labels size place
      exact justified place register
    · rintro ⟨path, starts, reading⟩
      exact (liveMap_stable function).live_of_readAlong labels nonzero reading starts

def countsUp : Function :=
  { empty "count" false with
    code := #[.start, .constant 32 0, .label 1, .aluImm .addI 33 32 1, .move 32 33, .constant 34 10,
      .branch .ltI 32 34 1, .ret false]
    registers := (empty "count" false).registers ++ #[⟨"i", .variable_⟩, ⟨"T0", .temp⟩, ⟨"T1", .temp⟩]
    labelCount := 2
    index := { labelAt := #[none, some 2] } }

/-- The counter is live at the branch by the path around the loop, and not behind the loop. -/
theorem live_iff_readAlong_countsUp :
    countsUp.LabelsIndexed ∧ (∃ path, path.head? = some 6 ∧ ReadAlong countsUp.code 32 path) ∧
      ¬ ∃ path, path.head? = some 7 ∧ ReadAlong countsUp.code 32 path := by
  have placed : countsUp.index.position? 1 = labelPlace? countsUp.code 1 := by decide
  have labels : countsUp.LabelsIndexed := by simpa [LabelsIndexed, countsUp, Instr.target?] using placed
  have exact_ := (live_iff_readAlong countsUp labels).2
  exact ⟨labels, (exact_ 6 32 (by decide)).mp (by decide +kernel), fun path =>
    absurd ((exact_ 7 32 (by decide)).mpr path) (by decide +kernel)⟩

end Function

end FplCompiler.Ir

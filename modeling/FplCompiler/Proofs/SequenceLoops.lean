import FplCompiler.Proofs.RangeLoops

/-!
Loops over arrays, strings and objects. The number of elements is read once, before the first pass, while the elements
are found from the register of the value itself. If that is the register of a variable, the loop goes through what the
variable carries at its start exactly if the body spares the variable.
-/

namespace FplCompiler.Reference

variable {μ : Type}

namespace Eval

def load (around : Ir.Surroundings μ) (size : Ir.MemSize) (address : Int32) : Eval μ Int32 :=
  fun store =>
    match around.load store.memory size address with
    | some value => .done value { store with trace := .loaded size address value :: store.trace }
    | none => .wrong

def Plain {α : Type} (step : Eval μ α) : Prop :=
  ∀ store, step store = .wrong ∨ ∃ value last, step store = .done value last ∧ last.locals = store.locals

theorem load_plain (around : Ir.Surroundings μ) (size : Ir.MemSize) (address : Int32) :
    (load around size address).Plain := by
  intro store
  rw [load]
  cases around.load store.memory size address with
  | none => exact .inl rfl
  | some value => exact .inr ⟨value, _, rfl, rfl⟩

theorem call_plain (around : Ir.Surroundings μ) (label : String) (returns : Bool) (arguments : List Int32) :
    (call around label returns arguments).Plain := by
  intro store
  rw [call]
  cases around.call store.memory (.named label) arguments with
  | none => exact .inl rfl
  | some answer => exact .inr ⟨_, _, rfl, rfl⟩

theorem Plain.visitOne_eq {symbol : SymbolId} {element : Eval μ Int32} (plain : element.Plain) (body : Eval μ Unit)
    (store : Store μ) :
    visitOne symbol element body store = pass (do setVariable symbol (some (← element)); body) store := by
  rw [visitOne, pass, bind_apply, bind_apply]
  rcases plain store with wrong | ⟨value, last, done, -⟩
  · rw [wrong]
    rfl
  · rw [done]
    rfl

end Eval

open Eval

/-- How a value is gone through: the number of its elements, and an element by its index. -/
structure Sequence (μ : Type) where
  count : Int32 → Eval μ Int32
  element : Int32 → Int → Eval μ Int32

def sequence? (around : Ir.Surroundings μ) (table : Declarations) : Ty → Option (Sequence μ)
  | .object cls _ => (Codegen.iteration? table (table.classDef cls.id)).map fun parts => {
      count := fun object => load around .word (object + parts.1.offset)
      element := fun object index => call around parts.2.label true [object, .ofInt index] }
  | .inlineArray element count => some {
      count := fun _ => pure (.ofNat count)
      element := elementOf element }
  | type => type.element?.map fun element => {
      count := fun base => load around .word (base + sizeFieldOffset)
      element := elementOf element }
where
  elementOf (element : Ty) (base : Int32) (index : Int) : Eval μ Int32 :=
    load around (Codegen.memSize element) (base + (if element.size = 1 then 1 else 4) * .ofInt index)

def evalSequence (sequence : Sequence μ) (symbol : SymbolId) (value : Eval μ Int32) (body : Eval μ Unit) : Eval μ Unit := do
  let base ← value
  let size ← sequence.count base
  visit symbol (sequence.element base) body (Int.range 0 size.toInt)

end FplCompiler.Reference

namespace FplCompiler.Codegen

open Ir Reference

variable {μ : Type} {around : Surroundings μ} {passes register : Nat} {inLoop : Bool} {course : Course around passes}
  {final : Ir.Function} {state later : State} {machine : MachineState μ} {store : Store μ}

/-- A new register is set to what is loaded. -/
theorem Fresh.load {base : Nat} {instr : Instr} {size : MemSize} {offset : Int32}
    (fresh : Fresh course state register later) (adds : Adds course state instr later)
    (place : machine.place = state.function.code.size) (related : Related course.final store machine)
    (loads : effect around (labelPlace? course.final.code) machine instr =
      loadEffect around machine size register base offset) :
    course.Follows machine (Eval.load around size (machine.read base + offset) store)
      fun word last => Delivers register later word last ∧ Keeps (Older state) machine last := by
  rw [Eval.load]
  cases answer : around.load store.memory size (machine.read base + offset) with
  | none => trivial
  | some value =>
    rw [loadEffect, related.memory, answer] at loads
    have reads := machine.read_assign fresh.nonzero value
    have others : ∀ other, other ≠ register → (machine.assign register value).read other = machine.read other :=
      fun other different => (reads other).trans (if_neg different)
    have assigned := related.assign fresh.nonzero fresh.unnamed value
    refine ⟨_, ⟨1, run_one (adds.foundAt place) loads⟩, ⟨rfl, congrArg (_ :: ·) related.trace, assigned.holds⟩,
      fun other kept => others other ?_, ⟨?_, (reads register).trans (if_pos rfl)⟩, fresh.kept others⟩
    · rintro rfl
      exact fresh.unkept kept
    · exact (congrArg (· + 1) place).trans adds.size.symm

structure ElementCode (around : Surroundings μ) (passes : Nat) (sequence count : Nat) (code : Reg → Gen Reg)
    (element : Int32 → Int → Eval μ Int32) : Prop where
  plain : ∀ base index, (element base index).Plain
  makes : ∀ index, Makes true [] (code index) fun (course : Course around passes) state register later =>
    IsValue state sequence → IsValue state index → ∀ machine store, machine.place = state.function.code.size →
    Related course.final store machine → 0 ≤ machine.read index → machine.read index < machine.read count →
    course.Follows machine (element (machine.read sequence) (machine.read index).toInt store) (Delivers register later)

theorem array_elementCode (element : Ty) (sequence count : Nat) :
    ElementCode around passes sequence count
      (fun index => do Emit.load (memSize element) (← elementAddress element.size sequence index count) 0)
      (sequence?.elementOf around element) where
  plain base index := Eval.load_plain _ _ _
  makes index := by
    refine .mono (.bind (.bind (.toTemp (fun dest => .alu (.indexFor element.size) dest index count) fun _ => rfl)
      fun scaled => .toTemp (fun dest => .alu .addI dest sequence scaled) fun _ => rfl)
      fun address => .toTemp (fun dest => .load (memSize element) dest address 0) fun _ => rfl) ?_
    rintro course state register later
      ⟨address, _, -, ⟨scaled, _, -, ⟨scaledFresh, scales⟩, addressFresh, adds⟩, fresh, loads⟩
      isSequence - machine store place related least below
    have scaling : effect around (labelPlace? course.final.code) machine
        (.alu (.indexFor element.size) scaled index count) =
        some (.plain machine (.set scaled ((if element.size = 1 then 1 else 4) * machine.read index))) := by
      by_cases single : element.size = 1 <;>
        simp [effect, AluOp.indexFor, single, Surroundings.operate, least, below]
    refine scales.set scaledFresh.toFree place related scaling fun first firstPlace firstRelated firstRead others => ?_
    refine adds.set addressFresh.toFree firstPlace firstRelated rfl fun last lastPlace lastRelated lastRead _ => ?_
    have found : last.read address + 0 =
        machine.read sequence + (if element.size = 1 then 1 else 4) * .ofInt (machine.read index).toInt := by
      rw [lastRead, Int32.ofInt_toInt, Int32.add_zero, (scaledFresh.kept others).value isSequence, firstRead]
    rw [sequence?.elementOf, ← found]
    exact (fresh.load loads lastPlace lastRelated rfl).finish fun _ _ _ related _ good => .done related good.1

theorem object_elementCode (label : String) (object count : Nat) :
    ElementCode around passes object count (fun index => Gen.call label [object, index] true)
      fun base index => Eval.call around label true [base, .ofInt index] where
  plain base index := Eval.call_plain _ _ _ _
  makes index := by
    refine .mono (.call label [object, index] true) ?_
    rintro course state register later runs isObject isIndex machine store place related - -
    rw [Int32.ofInt_toInt]
    exact runs (show 2 ≤ Reg.result by decide) (by simpa using ⟨isObject, isIndex⟩) machine store place related

section Passes

variable {symbol index sequence count : Nat} {base size word : Int32} {element : Int32 → Int → Eval μ Int32}
  {body : Gen Unit} {bodyEffect : Eval μ Unit} {spared : SymbolId → Prop} {value : Eval μ Int32}

def Carries (final : Ir.Function) (register : Nat) (word : Int32) (store : Store μ) : Prop :=
  ∀ symbol : Nat, final.variableRegs.lookup symbol = some register → store.locals symbol = some word

def Spared (final : Ir.Function) (register : Nat) (symbol : SymbolId) (body : Eval μ Unit) : Prop :=
  ∀ other : Nat, final.variableRegs.lookup other = some register → other ≠ symbol ∧ body.Spares other

theorem Carries.visitOne {last : Store μ} {step : Eval μ Int32}
    (carries : Carries final register word store) (plain : step.Plain) (spared : Spared final register symbol bodyEffect)
    (passed : Eval.visitOne symbol step bodyEffect store = .done true last) : Carries final register word last := by
  intro other lookup
  obtain ⟨different, spares⟩ := spared other lookup
  rw [Eval.visitOne, Eval.bind_apply] at passed
  rcases plain store with wrong | ⟨value, between, done, same⟩
  · rw [wrong] at passed
    cases passed
  · rw [done] at passed
    rw [spares _ _ passed, ← carries other lookup, ← same]
    exact if_neg different

/-- The registers in use that no variable is in, without that of the index. -/
def Besides (final : Ir.Function) (state : State) (index register : Nat) : Prop :=
  Hidden final state register ∧ register ≠ index

theorem Carries.read {last : MachineState μ}
    (carries : Carries final register word store) (isValue : IsValue state register) (other : register ≠ index)
    (related : Related final store last) (kept : Keeps (Besides final state index) machine last)
    (read : machine.read register = word) : last.read register = word := by
  by_cases named : IsVariable final register
  · obtain ⟨symbol, lookup⟩ := named
    exact related.read lookup (carries symbol lookup)
  · rcases isValue with rfl | older
    · simpa using read
    · exact (kept register ⟨⟨older, named⟩, other⟩).trans read

section Visits

variable {testPlace againPlace stepPlace donePlace : Nat} {bodyRuns : Course around passes → State → Unit → State → Prop}
  (layout : LoopLayout (course.keeping (Hidden course.final state)) index count .ltI 1 bodyRuns state later testPlace
    againPlace stepPlace donePlace)
  (isIndex : Hidden course.final state index)

include layout isIndex

theorem LoopLayout.counted (place : machine.place = stepPlace) (related : Related course.final store machine) :
    ∃ last, Reaches around course.final.code machine last ∧ Related course.final store last ∧
      Keeps (Besides course.final state index) machine last ∧ last.place = testPlace ∧
      last.read index = machine.read index + 1 := by
  obtain ⟨ended, temp, added, counted, fresh, adds, moves, older, rfl, rfl⟩ := layout.counts
  have nonzero : index ≠ Reg.zero := by
    rintro rfl
    exact absurd isIndex.1.1 (by decide)
  have first := machine.read_assign fresh.nonzero (machine.read index + 1)
  have second := (machine.assign temp (machine.read index + 1)).read_assign nonzero (machine.read index + 1)
  have added := (congrArg (· + 1) place).trans adds.size.symm
  refine ⟨_, (Reaches.assign (adds.foundAt place) rfl).trans (.assign (moves.foundAt added) ?_),
    (related.assign fresh.nonzero fresh.unnamed _).assign nonzero isIndex.2 _, ?_,
    (congrArg (· + 1) added).trans moves.size.symm, (second index).trans (if_pos rfl)⟩
  · rw [effect, first, if_pos rfl]
  · intro register kept
    rw [second, if_neg kept.2, first, if_neg]
    rintro rfl
    exact fresh.newer (older _ kept.1.1)

theorem LoopLayout.visit (isCount : Besides course.final state index count) (isSequence : IsValue state sequence)
    (other : sequence ≠ index) (plain : ∀ base index, (element base index).Plain)
    (spared : Spared course.final sequence symbol bodyEffect)
    (runs : ∀ machine store, machine.place = againPlace → Related course.final store machine →
      machine.read sequence = base → 0 ≤ machine.read index → machine.read index < machine.read count →
      (course.keeping (Hidden course.final state)).Follows machine
        (Eval.visitOne symbol (element base (machine.read index).toInt) bodyEffect store) fun goesOn last =>
          last.place = if goesOn then stepPlace else donePlace)
    (values : List Int) (place : machine.place = testPlace) (related : Related course.final store machine)
    (carries : Carries course.final sequence base store) (baseRead : machine.read sequence = base)
    (sizeRead : machine.read count = size) (least : 0 ≤ machine.read index)
    (ahead : Int.range (machine.read index).toInt size.toInt = values) :
    (course.keeping (Besides course.final state index)).Follows machine
      (Eval.visit symbol (element base) bodyEffect values store) fun _ last => last.place = donePlace := by
  have tests (machine : MachineState μ) (word : Int32) (place : machine.place = testPlace)
      (compared : AluOp.ltI.evaluate? (machine.read index) (machine.read count) = some word) :
      Reaches around course.final.code machine (machine.goto (if word ≠ 0 then againPlace else donePlace)) :=
    Reaches.trans ⟨1, layout.tests machine place⟩ (layout.branches _ word rfl compared)
  induction values generalizing machine store with
  | nil =>
    have above : ¬ machine.read index < machine.read count := by
      rw [sizeRead, Int32.lt_iff_toInt_lt]
      intro below
      rw [range_eq_cons below] at ahead
      cases ahead
    have compared : AluOp.ltI.evaluate? (machine.read index) (machine.read count) = some 0 := by
      simp [AluOp.evaluate?, AluOp.truth, above]
    exact .goto (tests machine 0 place compared) (.done (related.goto _) rfl)
  | cons item rest ih =>
    have below : (machine.read index).toInt < size.toInt := by
      by_contra above
      rw [Int.range, Int.toNat_of_nonpos (by omega)] at ahead
      cases ahead
    rw [range_eq_cons below] at ahead
    obtain ⟨rfl, restAhead⟩ := List.cons.inj ahead
    have inside : machine.read index < machine.read count := by rwa [sizeRead, Int32.lt_iff_toInt_lt]
    have compared : AluOp.ltI.evaluate? (machine.read index) (machine.read count) = some 1 := by
      simp [AluOp.evaluate?, AluOp.truth, inside]
    have next : (machine.read index + 1).toInt = (machine.read index).toInt + 1 :=
      toInt_next (by have := size.toInt_lt; omega)
    have positive : 0 ≤ (machine.read index).toInt := Int32.le_iff_toInt_le.mp least
    refine .goto (tests machine 1 place compared) ?_
    refine Follows.bindDone (.mono (runs (machine.goto againPlace) store rfl (related.goto _) baseRead least inside)
      (fun _ => And.left) fun _ _ last _ kept good => And.intro (kept index isIndex) good) ?_
    rintro goesOn last passed done passedRelated passedKept ⟨indexKept, passedPlace⟩
    cases goesOn with
    | false => exact .done passedRelated passedPlace
    | true =>
      obtain ⟨last, reaches, lastRelated, stepKept, lastPlace, indexRead⟩ :=
        layout.counted isIndex passedPlace passedRelated
      have lastCarries := carries.visitOne (plain base _) spared done
      have allKept := passedKept.trans stepKept
      rw [indexKept, MachineState.read_goto] at indexRead
      refine .after reaches stepKept (ih lastPlace lastRelated lastCarries
        (lastCarries.read isSequence other lastRelated allKept baseRead) ((allKept count isCount).trans sizeRead) ?_ ?_)
      · rw [indexRead, Int32.le_iff_toInt_le, Int32.toInt_zero]
        omega
      · rw [indexRead, next, restAhead]

end Visits

def StaysIn (code : Gen Reg) (value : Eval μ Int32) (spared : SymbolId → Prop) : Prop :=
  ∀ state, Ready state → ∀ symbol : Nat, (code state).2.function.variableRegs.lookup symbol = some (code state).1 →
    spared symbol ∧ ∀ store word last, value store = .done word last → last.locals symbol = some word

theorem ValueCode.staying {code : Gen Reg}
    (valueCode : ValueCode around passes inLoop code value) (stays : StaysIn code value spared) :
    Makes inLoop [] code fun (course : Course around passes) state register later =>
      (IsValue later register ∧ course.RunsKeeping state value (Delivers register later)) ∧
      ∀ symbol : Nat, course.final.variableRegs.lookup symbol = some register →
        spared symbol ∧ ∀ store word last, value store = .done word last → last.locals symbol = some word where
  later := valueCode.makes.later
  runs course state owns holds := by
    refine ⟨valueCode.makes.runs course state owns holds, fun symbol lookup => stays state owns.ready symbol ?_⟩
    rcases valueCode.isValue state owns.ready with zero | older
    · exact absurd zero (holds.finished.regular.home_ne_zero lookup)
    · exact holds.finished.extends_.older symbol _ lookup older.2

structure CountCode (around : Surroundings μ) (passes : Nat) (code : Reg → Reg → Instr) (count : Int32 → Eval μ Int32) :
    Prop where
  plain : ∀ base, (count base).Plain
  unplaced : ∀ sequence size, placed? (code sequence size) = none
  runs : ∀ {course : Course around passes} {state later : State} {sequence register} {machine : MachineState μ} {store},
    Fresh course state register later → Adds course state (code sequence register) later →
    machine.place = state.function.code.size → Related course.final store machine →
    course.Follows machine (count (machine.read sequence) store) fun word last =>
      Delivers register later word last ∧ Keeps (Older state) machine last

theorem sequence_stmtCode (table : Declarations) (symbol : SymbolId) {parts : Sequence μ} {iterable : Gen Reg}
    {counted : Reg → Reg → Instr} {elementOf : Reg → Reg → Reg → Gen Reg}
    (valueCode : ValueCode around passes inLoop iterable value)
    (countCode : CountCode around passes counted parts.count)
    (elementCode : ∀ sequence count, ElementCode around passes sequence count (elementOf sequence count) parts.element)
    (bodyCode : StmtCode around passes true body bodyEffect)
    (stays : StaysIn iterable value fun other => other ≠ symbol ∧ bodyEffect.Spares other) :
    StmtCode around passes inLoop
      (do
        let sequence ← iterable
        let count ← Emit.toTemp (counted sequence)
        forIndex table symbol count (elementOf sequence count) body)
      (evalSequence parts symbol value bodyEffect) := by
  refine .ofMakes (.mono (.bind (valueCode.staying stays) fun sequence =>
    .bind (.toTemp (counted sequence) (countCode.unplaced sequence)) fun count => .bind .newScratch fun index =>
    .bind (.add (.constant index 0)) fun _ => .bind (.variableRegister table symbol) fun home =>
    .keepHidden (.loopLayout (.bind ((elementCode sequence count).makes index) fun element =>
      .bind (.add (.move home element)) fun _ => bodyCode.makes) index count .ltI 1)) ?_)
  rintro course state _ later made hides machine store place related
  obtain ⟨sequence, _, -, ⟨⟨isSequence, valueRuns⟩, named⟩, afterSequence⟩ := made
  obtain ⟨count, measured, toMeasured, ⟨countFresh, counts⟩, afterCount⟩ := afterSequence
  obtain ⟨index, _, toScratch, ⟨indexFresh, scratched⟩, afterIndex⟩ := afterCount
  obtain ⟨_, _, toCleared, clears, home, loopState, toNamed, ⟨lookup, -, same⟩, looping⟩ := afterIndex
  obtain ⟨kept, _, _, _, _, layout⟩ := looping
  have toLoop := (toScratch.trans toCleared).trans toNamed
  have isIndex : Hidden course.final loopState index :=
    ⟨(toCleared.trans toNamed).older index indexFresh.older, indexFresh.unnamed⟩
  have other (register : Nat) (isValue : IsValue measured register) : register ≠ index := by
    rintro rfl
    exact isValue.elim indexFresh.nonzero indexFresh.newer
  have sequenceOther := other sequence (toMeasured.isValue isSequence)
  have countOther := other count countFresh.isValue
  refine (valueRuns machine store place related).bindDone ?_
  rintro base valueStore valued isValued valueRelated - ⟨⟨valuePlace, rfl⟩, -⟩
  refine Follows.bindDone (countCode.runs countFresh counts valuePlace valueRelated) ?_
  rintro size sizeStore sized isSized sizeRelated - ⟨⟨sizePlace, rfl⟩, sizeKept⟩
  have unchanged : sizeStore.locals = valueStore.locals := by
    rcases countCode.plain _ valueStore with wrong | ⟨_, _, done, unchanged⟩
    · rw [wrong] at isSized
      cases isSized
    · rw [done] at isSized
      cases isSized
      exact unchanged
  refine clears.set indexFresh.toFree (sizePlace.trans scratched.symm) sizeRelated rfl ?_
  intro cleared clearedPlace clearedRelated indexRead others
  have baseRead := (others sequence sequenceOther).trans (sizeKept.value isSequence)
  refine .goto (layout.enters cleared (clearedPlace.trans same.symm)) ?_
  have isBase := toLoop.isValue (toMeasured.isValue isSequence)
  have isCount : Hidden course.final loopState count := ⟨toLoop.older count countFresh.older, countFresh.unnamed⟩
  have plain := (elementCode sequence count).plain
  have apart := fun other lookup => (named other lookup).1
  refine Follows.finish (.keepLess (layout.visit isIndex ⟨isCount, countOther⟩ isBase sequenceOther plain apart ?_ _ rfl
    (clearedRelated.goto _) ?_ baseRead (others count countOther) ?_ ?_)
    fun register keep => ⟨⟨kept register keep, hides register keep⟩, ?_⟩) ?_
  · -- one pass: the element, its move to the variable, and the body
    intro machine store place related baseRead least below
    obtain ⟨exits, started, _, ⟨element, _, -, elementRuns, _, _, -, writes, bodyRuns⟩, older, passes⟩ := layout.pass
    rw [← baseRead, ((elementCode sequence count).plain _ _).visitOne_eq]
    refine passes machine _ store place (Follows.bind (elementRuns ?_ (.inr (older index isIndex.1)) _ store rfl
      (related.goto _) least below) ?_)
    · exact isBase.imp id (older sequence)
    rintro word loadedStore loaded loadedRelated - ⟨loadedPlace, loadedRead⟩
    refine Follows.bind (writes.write (fun _ => And.right) lookup loadedPlace loadedRelated loadedRead) ?_
    exact fun _ writtenStore written writtenRelated _ writtenPlace =>
      bodyRuns (fun _ => And.right) written writtenStore writtenPlace writtenRelated
  · intro other lookup
    rw [unchanged]
    exact (named other lookup).2 _ _ _ isValued
  · rw [MachineState.read_goto, indexRead]
    exact Int32.le_refl 0
  · rw [MachineState.read_goto, indexRead]
    rfl
  · rintro rfl
    exact indexFresh.unkept keep
  · exact fun _ lastStore last lastRelated _ lastPlace =>
      .goto (layout.leaves last lastPlace) (.done (lastRelated.goto _) rfl)

theorem load_countCode (offset : Int32) :
    CountCode around passes (fun sequence size => .load .word size sequence offset)
      fun base => Eval.load around .word (base + offset) where
  plain _ := Eval.load_plain _ _ _
  unplaced _ _ := rfl
  runs fresh adds place related := fresh.load adds place related rfl

theorem field_countCode (field : FieldRef) :
    CountCode around passes (fun object size => .loadField .word size object field)
      fun object => Eval.load around .word (object + field.offset) where
  plain _ := Eval.load_plain _ _ _
  unplaced _ _ := rfl
  runs fresh adds place related := fresh.load adds place related rfl

theorem constant_countCode (value : Int32) :
    CountCode around passes (fun _ size => .constant size value) fun _ => (pure value : Eval μ Int32) where
  plain _ store := .inr ⟨value, store, rfl, rfl⟩
  unplaced _ _ := rfl
  runs fresh adds place related := adds.set fresh.toFree place related rfl fun _ lastPlace lastRelated read others =>
    .done lastRelated ⟨⟨lastPlace, read⟩, fresh.kept others⟩

section Shapes

variable {shape : Typed.ExprShape} (noRange : ∀ start stop op, shape ≠ .range start stop op)

include noRange

theorem forLoop_object (table : Declarations) (symbol : SymbolId) (span : Span) (cls : ClassRef) (arguments : List Ty)
    (body : Gen Unit) :
    forLoop table symbol (.mk shape span (.object cls arguments)) body =
      forObject table symbol (table.classDef cls.id) (exprCode table (.mk shape span (.object cls arguments))) body := by
  cases shape with
  | range start stop op => exact absurd rfl (noRange start stop op)
  | _ => rfl

theorem forLoop_array (table : Declarations) (symbol : SymbolId) (span : Span) {type : Ty}
    (noObject : ∀ cls arguments, type ≠ .object cls arguments) (body : Gen Unit) :
    forLoop table symbol (.mk shape span type) body =
      forArray table symbol type (exprCode table (.mk shape span type)) body := by
  unfold forLoop
  split
  · rename_i same
    cases same
    exact absurd rfl (noRange _ _ _)
  · rename_i same
    cases same
    exact absurd rfl (noObject _ _)
  · rename_i same
    cases same
    rfl

/-- A loop over an array, a string or an object goes through the elements that the value had at its start, one after the
other, if the body spares the variable whose register the value may be in. -/
theorem forLoop_visits_sequence (table : Declarations) (symbol : SymbolId) (span : Span) {type : Ty}
    {parts : Sequence μ} {value : Eval μ Int32} (found : sequence? around table type = some parts)
    (valueCode : ValueCode around passes inLoop (exprCode table (.mk shape span type)).value value)
    (bodyCode : StmtCode around passes true body bodyEffect)
    (stays : StaysIn (exprCode table (.mk shape span type)).value value fun other =>
      other ≠ symbol ∧ bodyEffect.Spares other) :
    StmtCode around passes inLoop (forLoop table symbol (.mk shape span type) body)
      (evalSequence parts symbol value bodyEffect) := by
  cases type with
  | object cls arguments =>
    obtain ⟨⟨size, get⟩, iterates, rfl⟩ := Option.map_eq_some_iff.mp found
    rw [forLoop_object noRange, forObject, iterates]
    exact sequence_stmtCode table symbol valueCode (field_countCode size) (object_elementCode get.label) bodyCode stays
  | inlineArray element count =>
    obtain rfl := Option.some.inj found
    rw [forLoop_array noRange table symbol span (by simp)]
    exact sequence_stmtCode table symbol valueCode (constant_countCode _) (array_elementCode element) bodyCode stays
  | _ =>
    simp only [sequence?] at found
    obtain ⟨element, isElement, rfl⟩ := Option.map_eq_some_iff.mp found
    rw [forLoop_array noRange table symbol span (by simp), forArray, isElement]
    exact sequence_stmtCode table symbol valueCode (load_countCode _) (array_elementCode element) bodyCode stays

end Shapes

theorem variable_staysIn (table : Declarations) {symbol : SymbolId} (isSpared : spared symbol) :
    StaysIn (μ := μ) (Gen.variableRegister table symbol) (Eval.readVariable symbol) spared := by
  intro state ready other lookup
  have toNamed := later_withVariable state symbol (table.symbol symbol).name
  obtain rfl := (toNamed.ready ready).regular.apart _ _ _ lookup (lookup_withVariable state symbol _)
  refine ⟨isSpared, fun store word last read => ?_⟩
  rw [Eval.readVariable] at read
  cases given : store.locals other with
  | none => rw [given] at read; cases read
  | some value => rw [given] at read; cases read; exact given

/-- Three numbers from the address 100 on, with their count in front of them. -/
def threeNumbers : Int32 → Int32 :=
  fun address => if address = 96 then 3 else address / 4

/-- Goes through the numbers of an array and adds them up. -/
theorem forLoop_visits_sequence_addsUp :
    (evalStmt Surroundings.words singleParameter 0 addsUp).Spares 2 ∧
    ∃ parts, sequence? Surroundings.words singleParameter (.array .int) = some parts ∧
      StmtCode Surroundings.words 0 false
        (forLoop singleParameter 1 (.mk (.localVar 2) .nowhere (.array .int)) (stmtCode singleParameter addsUp))
        (evalSequence parts 1 (Eval.readVariable 2) (evalStmt Surroundings.words singleParameter 0 addsUp)) ∧
      ∃ last, evalSequence parts 1 (Eval.readVariable 2) (evalStmt Surroundings.words singleParameter 0 addsUp)
          ⟨fun symbol => if symbol = 2 then some 100 else some 0, threeNumbers, []⟩ = .done () last ∧
        last.locals 0 = some 78 ∧
        last.trace = [.loaded .word 108 27, .loaded .word 104 26, .loaded .word 100 25, .loaded .word 96 3] := by
  have spares := addsUp_spares Surroundings.words 0 (show 2 ≠ 0 by decide)
  refine ⟨spares, _, rfl, ?_, _, rfl, rfl, rfl⟩
  exact forLoop_visits_sequence (by simp) singleParameter 1 .nowhere rfl
    (exprCode_codeFor singleParameter (.mk (.localVar 2) .nowhere (.array .int)) rfl).value
    (stmtCode_stmtCode singleParameter true addsUp rfl)
    (variable_staysIn singleParameter ⟨by decide, spares⟩)

def twoArrays : Surroundings Unit where
  addressOf _ := 0
  realOperation _ _ _ := none
  load _ _ address := some (if address = 96 then 2 else 0)
  store _ _ _ _ := none
  call _ _ _ := none

def arrayParameters : Declarations where
  functions := #[{ (default : FunctionDef) with parameters := [0, 1], returnType := .unit }]

def replacesIterated : List Typed.Stmt :=
  [.forLoop 2 (.mk (.localVar 0) .nowhere (.array .int))
    [.assign .replace (.mk (.localVar 0) .nowhere (.array .int)) (.mk (.localVar 1) .nowhere (.array .int))]]

/-- The second pass reads beyond the end of the second array. -/
theorem replacesIterated_reads_beyond :
    ((stmtCode arrayParameters (.functionBody 0 replacesIterated) ⟨default, default, none, []⟩).2.program.functions.map
      fun function => (run twoArrays function.code 22
        (.entry (fun register => if register = 1 then 100 else 200) ())).map MachineState.trace) =
      [some [.loaded .word 204 0, .loaded .word 100 0, .loaded .word 96 2]] := by
  decide +kernel

end Passes

end FplCompiler.Codegen

import FplCompiler.Analysis.Loop
import FplCompiler.Codegen.Loop
import FplCompiler.Proofs.CheckStep

/-!
How a loop goes through an object. The check takes the first overload of the getter that has an index as its parameter,
while the code calls the first one of all: they are the same exactly if the first overload takes an index. The type of
the variable is the one that the getter was declared with, whatever the type arguments of the object are.
-/

namespace FplCompiler.Analysis

open Check

theorem classMember?_apply (cls : ClassRef) (name : String) (state : State) :
    classMember? cls name state =
      (((state.table.classDef cls.id).members.lookup name).map fun id => (id, state.table.symbol id), state) := by
  rw [classMember?, bind_apply, show getClass cls.id state = (state.table.classDef cls.id, state) from rfl]
  cases (state.table.classDef cls.id).members.lookup name <;> rfl

/-- A class whose objects are gone through has getters; the one whose type the variable has is chosen by its parameter, the
one that is called for each element by its position, and they are the same exactly if the first takes an index. -/
theorem iterated_getter {state : State} {cls : ClassRef} {arguments : List Ty} {element : Ty}
    (accepted : (iterationElement? (.object cls arguments) state).1 = some element) :
    ∃ (size : Ir.FieldRef) (get : SymbolId) (first : FunctionInstance) (rest : List FunctionInstance)
      (getter : FunctionInstance),
      (state.table.classDef cls.id).members.lookup "get" = some get ∧
      (state.table.symbol get).kind = .function (first :: rest) ∧
      (first :: rest).find? isGetter = some getter ∧ element = getter.returnType ∧
      Codegen.iteration? state.table (state.table.classDef cls.id) = some (size, state.table.function first.function) ∧
      (getter = first ↔ isGetter first = true) := by
  change (elementOfClass? cls state).1 = some element at accepted
  simp only [elementOfClass?, bind_apply, classMember?_apply] at accepted
  cases isSize : (state.table.classDef cls.id).members.lookup "size" with
  | none => rw [isSize] at accepted; cases accepted
  | some size =>
  cases isGet : (state.table.classDef cls.id).members.lookup "get" with
  | none => rw [isSize, isGet] at accepted; cases accepted
  | some get =>
  rw [isSize, isGet] at accepted
  simp only [Option.map_some] at accepted
  cases field : (state.table.symbol size).kind <;> rw [field] at accepted <;> try cases accepted
  rename_i owner offset
  cases word : (state.table.symbol size).type <;> rw [word] at accepted <;> try cases accepted
  rename_i primitive
  cases primitive <;> try cases accepted
  cases function : (state.table.symbol get).kind <;> rw [function] at accepted <;> try cases accepted
  obtain ⟨getter, chosen, rfl⟩ := Option.map_eq_some_iff.mp accepted
  rename_i overloads
  cases overloads with
  | nil => cases chosen
  | cons first rest =>
    refine ⟨⟨(state.table.symbol size).name, offset⟩, get, first, rest, getter, rfl, function, chosen, rfl, ?_, ?_⟩
    · simp only [Codegen.iteration?, isSize, isGet, field, function, Option.bind_eq_bind, Option.bind_some]
    · refine ⟨fun same => same ▸ List.find?_some chosen, fun isFirst => ?_⟩
      rw [List.find?_cons_of_pos isFirst] at chosen
      exact (Option.some.inj chosen).symm

def withGetters (overloads : List FunctionInstance) : State where
  sources := default
  table := {
    symbols := #[⟨"size", .nowhere, .int, false, .field none 0⟩, ⟨"get", .nowhere, .error, false, .function overloads⟩]
    classes := #[{ (default : ClassDef) with members := [("size", 0), ("get", 1)] }]
    functions := #[{ (default : FunctionDef) with label := "A/get(Int)" },
      { (default : FunctionDef) with label := "A/get(String)" }] }

def byIndex : FunctionInstance :=
  ⟨0, "get", [.int], none, false, .char, []⟩

def byText : FunctionInstance :=
  ⟨1, "get", [.string], none, false, .int, []⟩

theorem iterated_getter_byIndex :
    (iterationElement? (.object default []) (withGetters [byIndex, byText])).1 = some .char ∧
    ∃ size first rest getter, (first :: rest).find? isGetter = some getter ∧ Ty.char = getter.returnType ∧
      Codegen.iteration? (withGetters [byIndex, byText]).table ((withGetters [byIndex, byText]).table.classDef 0) =
        some (size, (withGetters [byIndex, byText]).table.function first.function) ∧
      (getter = first ↔ isGetter first = true) := by
  have accepted : (iterationElement? (.object default []) (withGetters [byIndex, byText])).1 = some .char := rfl
  obtain ⟨size, get, first, rest, getter, -, -, chosen, type, called, same⟩ := iterated_getter accepted
  exact ⟨accepted, size, first, rest, getter, chosen, type, called, same⟩

/-- If a getter by a text stands first, it is called with the index, while the variable has the type of the other. -/
theorem byText_called :
    (iterationElement? (.object default []) (withGetters [byText, byIndex])).1 = some .char ∧
    (Codegen.iteration? (withGetters [byText, byIndex]).table ((withGetters [byText, byIndex]).table.classDef 0)).map
      (fun parts => parts.2.label) = some "A/get(String)" :=
  ⟨rfl, rfl⟩

end FplCompiler.Analysis

import FplCompiler.Codegen.Loop
import FplCompiler.Proofs.AssignedPlaces
import FplCompiler.Proofs.DeclaredPlaces

/-!
What the check of a body does for the definitions in it, for its loops and for what it assigns to, also where the program
is rejected.
-/

namespace FplCompiler

def Ty.Iterable (table : Declarations) : Ty → Prop
  | .object cls _ => (Codegen.iteration? table (table.classDef cls.id)).isSome
  | type => type.element?.isSome ∨ type = .error

def Typed.Stmt.GoesOver (table : Declarations) (stmt : Typed.Stmt) : Prop :=
  ∀ symbol iterable body, stmt = .forLoop symbol iterable body → iterable.type.Iterable table

namespace Analysis

open Check

open Syntax (Definition)

open Typed (loweredBy stmtsWithin)

def State.definedAt (state : State) : Definition → Option FunctionId
  | .function span => (state.functionAt.lookup span).map Prod.fst
  | .constructor span =>
    (state.foundClasses.find? (·.span = span)).bind fun found => (state.table.classDef found.ref.id).constructor?

structure Keeps (before after : State) : Prop where
  accepted : after.Accepted → before.Accepted
  table : before.table.Extends after.table
  classes : after.table.classes = before.table.classes
  foundClasses : after.foundClasses = before.foundClasses
  functionAt : after.functionAt = before.functionAt
  fieldStatements : after.fieldStatements = before.fieldStatements

namespace Keeps

variable {before between after : State}

theorem refl (state : State) : Keeps state state :=
  ⟨id, .refl _, rfl, rfl, rfl, rfl⟩

theorem trans (first : Keeps before between) (second : Keeps between after) : Keeps before after where
  accepted := first.accepted ∘ second.accepted
  table := first.table.trans second.table
  classes := second.classes.trans first.classes
  foundClasses := second.foundClasses.trans first.foundClasses
  functionAt := second.functionAt.trans first.functionAt
  fieldStatements := second.fieldStatements.trans first.fieldStatements

theorem ofGrows (grows : Grows before after) : Keeps before after := by
  have same := grows.registry
  simp only [State.registry, Prod.mk.injEq] at same
  obtain ⟨_, _, found, _, functionAt, _, fields, classes, _⟩ := same
  exact ⟨grows.accepted, grows.table, classes, found, functionAt, fields⟩

theorem classDef (keeps : Keeps before after) (id : ClassId) : after.table.classDef id = before.table.classDef id := by
  rw [Declarations.classDef, Declarations.classDef, keeps.classes]

theorem definedAt (keeps : Keeps before after) (definition : Definition) :
    after.definedAt definition = before.definedAt definition := by
  cases definition with
  | function span => rw [State.definedAt, State.definedAt, keeps.functionAt]
  | constructor span => simp only [State.definedAt, keeps.foundClasses, keeps.classDef]

end Keeps

/-- What the check of a part gives: places are assigned to, loops go over what code can be made for, and the definitions
of the part are among the functions that it lowers, if they were all declared. -/
structure Covers (final : State) (closed : Prop) (definitions : List Definition) (ids : List FunctionId)
    (inner : List Typed.Stmt) : Prop where
  lowered : closed → (∀ definition ∈ definitions, (final.definedAt definition).isSome) →
    ∀ definition ∈ definitions, ∀ id, final.definedAt definition = some id → id ∈ ids
  loops : final.Accepted → ∀ stmt ∈ inner, stmt.GoesOver final.table
  places : ∀ stmt ∈ inner, ∀ target ∈ stmt.target?, target.IsPlace

namespace Covers

variable {final : State} {closed : Prop} {definitions further : List Definition} {ids others : List FunctionId}
  {inner rest : List Typed.Stmt} {stmt : Typed.Stmt} {definition : Definition}

theorem nil : Covers final closed [] [] [] :=
  ⟨fun _ _ _ member => (by cases member), fun _ _ member => (by cases member), fun _ member => (by cases member)⟩

theorem append (one : Covers final closed definitions ids inner) (two : Covers final closed further others rest) :
    Covers final closed (definitions ++ further) (ids ++ others) (inner ++ rest) where
  lowered isClosed declared := by
    obtain ⟨first, second⟩ := List.forall_mem_append.mp declared
    refine List.forall_mem_append.mpr ⟨fun definition member id same => ?_, fun definition member id same => ?_⟩
    · exact List.mem_append_left _ (one.lowered isClosed first definition member id same)
    · exact List.mem_append_right _ (two.lowered isClosed second definition member id same)
  loops accepted := List.forall_mem_append.mpr ⟨one.loops accepted, two.loops accepted⟩
  places := List.forall_mem_append.mpr ⟨one.places, two.places⟩

theorem around (covers : Covers final closed definitions ids inner) (noTarget : stmt.target? = none)
    (goesOver : final.Accepted → stmt.GoesOver final.table) : Covers final closed definitions ids (stmt :: inner) where
  lowered := covers.lowered
  loops accepted := List.forall_mem_cons.mpr ⟨goesOver accepted, covers.loops accepted⟩
  places := List.forall_mem_cons.mpr ⟨by simp [noTarget], covers.places⟩

theorem define {id : FunctionId} (covers : Covers final closed definitions ids inner)
    (defined : final.definedAt definition = some id) (wider : ids ⊆ others) (here : id ∈ others) :
    Covers final closed (definition :: definitions) others inner where
  lowered isClosed declared := by
    obtain ⟨_, inside⟩ := List.forall_mem_cons.mp declared
    refine List.forall_mem_cons.mpr ⟨fun other same => ?_, fun definition member other same => ?_⟩
    · rw [defined] at same
      cases same
      exact here
    · exact wider (covers.lowered isClosed inside definition member other same)
  loops := covers.loops
  places := covers.places

theorem forget (covers : Covers final closed definitions ids inner) : Covers final closed [] ids inner :=
  ⟨fun _ _ _ member => (by cases member), covers.loops, covers.places⟩

theorem whenClosed (covers : Covers final closed definitions ids inner) (same : closed → further = definitions) :
    Covers final closed further ids inner where
  lowered isClosed := by
    rw [same isClosed]
    exact covers.lowered isClosed
  loops := covers.loops
  places := covers.places

theorem absent (covers : Covers final closed definitions ids inner)
    (unknown : final.definedAt definition = none) : Covers final closed (definition :: further) ids inner where
  lowered _ declared := by
    have known := declared definition List.mem_cons_self
    rw [unknown] at known
    cases known
  loops := covers.loops
  places := covers.places

theorem plain (plain : stmt.Plain) : Covers final closed [] stmt.lowered stmt.within := by
  have within : stmt.within = [stmt] := by cases stmt <;> first | rfl | exact plain.elim
  rw [within]
  refine ⟨fun _ _ _ member => (by cases member), fun _ => List.forall_mem_singleton.mpr ?_,
    List.forall_mem_singleton.mpr ?_⟩
  · rintro symbol iterable body rfl
    exact plain.elim
  · intro target assigned
    cases stmt <;> first | exact Option.some.inj assigned ▸ plain | cases assigned

theorem ofPlain {stmts : List Typed.Stmt} (plain : ∀ stmt ∈ stmts, stmt.Plain) :
    Covers final closed [] (loweredBy stmts) (stmtsWithin stmts) := by
  induction stmts with
  | nil => exact .nil
  | cons stmt rest ih =>
    obtain ⟨first, others⟩ := List.forall_mem_cons.mp plain
    exact (Covers.plain first).append (ih others)

theorem toList (covers : Covers final closed definitions stmt.lowered stmt.within) :
    Covers final closed definitions (loweredBy (some stmt).toList) (stmtsWithin (some stmt).toList) := by
  simpa [loweredBy, stmtsWithin] using covers

end Covers

theorem iteration?_of_kinds {table : Declarations} {cls : ClassDef} {sizeId getId : SymbolId} {owner : Option ClassId}
    {offset : Int32} {overloads : List FunctionInstance} (size : cls.members.lookup "size" = some sizeId)
    (get : cls.members.lookup "get" = some getId) (field : (table.symbol sizeId).kind = .field owner offset)
    (some : overloads ≠ []) (function : (table.symbol getId).kind = .function overloads) :
    (Codegen.iteration? table cls).isSome = true := by
  cases overloads with
  | nil => exact absurd rfl some
  | cons first rest => simp [Codegen.iteration?, size, get, field, function]

theorem Keeps.iterable {before after : State} (keeps : Keeps before after) {type : Ty}
    (iterable : type.Iterable before.table) : type.Iterable after.table := by
  cases type with
  | object cls arguments =>
    have kept : ∀ id, (before.table.symbol id).kind ≠ (default : Symbol).kind →
        id < before.table.symbols.size := by
      intro id different
      by_cases known : id < before.table.symbols.size
      · exact known
      · rw [Declarations.symbol_outside known] at different
        exact absurd rfl different
    simp only [Ty.Iterable] at iterable ⊢
    rw [keeps.classDef]
    unfold Codegen.iteration? at iterable
    cases size : (before.table.classDef cls.id).members.lookup "size" with
    | none => simp [size] at iterable
    | some sizeId =>
    cases get : (before.table.classDef cls.id).members.lookup "get" with
    | none => simp [get] at iterable
    | some getId =>
    simp only [size, get, Option.bind_eq_bind, Option.bind_some] at iterable
    split at iterable
    case h_2 => cases iterable
    case h_1 owner offset first rest field function =>
    have sizeKept := keeps.table.symbol sizeId (kept _ (by rw [field]; intro other; cases other))
    have getKept := keeps.table.symbol getId (kept _ (by rw [function]; intro other; cases other))
    have sizeStays : (after.table.symbol sizeId).kind = .field owner offset := by
      rcases sizeKept with same | ⟨_, _, ⟨overloads, other⟩, _⟩
      · rw [same, field]
      · rw [field] at other
        cases other
    rcases getKept with same | ⟨_, _, _, ⟨overloads, some, later⟩⟩
    · exact iteration?_of_kinds size get sizeStays (List.cons_ne_nil first rest) (by rw [same, function])
    · exact iteration?_of_kinds size get sizeStays some later
  | _ => exact iterable

theorem yields_elements {base : State} (cls : ClassRef) : Yields base (elementOfClass? cls) fun element? =>
    element?.isSome = true → (Codegen.iteration? base.table (base.table.classDef cls.id)).isSome = true := by
  have nothing : Yields base (pure none) fun element? : Option Ty => element?.isSome = true →
      (Codegen.iteration? base.table (base.table.classDef cls.id)).isSome = true := .pure fun chosen => by cases chosen
  refine (yields_classMember? cls "size").bind fun size? => (yields_classMember? cls "get").bind fun get? => ?_
  split
  case h_2 => exact nothing.mono fun _ holds _ _ => holds
  split
  case h_2 => exact nothing.mono fun _ holds _ _ => holds
  case h_1 overloads field _ function =>
  refine .pure fun getFound sizeFound chosen => ?_
  obtain ⟨looked, isSize⟩ := sizeFound _ rfl
  obtain ⟨lookedGet, isGet⟩ := getFound _ rfl
  refine iteration?_of_kinds looked lookedGet (by rw [isSize]; exact field) ?_ (by rw [isGet]; exact function)
  rintro rfl
  cases chosen

theorem yields_iterable {base : State} (iterable : Typed.Expr) (span : Span) :
    Yields base (loopVariableType iterable span) fun _ => iterable.type.Iterable base.table := by
  have element : Yields base (iterationElement? iterable.type) fun element? =>
      element?.isSome = true → iterable.type.Iterable base.table := by
    unfold iterationElement?
    split
    case h_1 same => exact .pure fun _ => by rw [same]; exact .inr rfl
    case h_2 same | h_3 same | h_4 same | h_5 same => exact .pure fun _ => by rw [same]; exact .inl rfl
    case h_6 same =>
      rw [same]
      exact yields_elements _
    case h_7 => exact .pure fun chosen => by cases chosen
  refine element.bind fun element? => ?_
  split
  · exact .pure fun found => found rfl
  · exact (yields_report _ _).bind fun _ => .pure fun quiet _ => absurd rfl quiet

end Analysis

end FplCompiler

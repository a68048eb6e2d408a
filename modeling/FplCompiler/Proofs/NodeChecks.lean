import FplCompiler.Analysis.Expression
import FplCompiler.Proofs.CheckStep

/-!
What the state says is what the checks of names give: members of classes, values of enums, reads of variables, and the
variables that are compared with `null`.
-/

namespace FplCompiler.Analysis

open Check

variable {base : State}

theorem chosen_of_found {candidates : List FunctionInstance} {arguments : List Ty} {function : FunctionInstance}
    (found : resolveOverload candidates arguments = .found function) :
    function ∈ candidates.filter (·.fits arguments) := by
  unfold resolveOverload at found
  split at found
  case h_1 => simp at found
  case h_2 only filtered =>
    rw [filtered, Resolution.found.inj found]
    exact List.mem_cons_self
  case h_3 first others _ filtered =>
    split at found
    · rw [filtered, Resolution.found.inj found]
      exact List.mem_cons_self
    · simp at found

theorem yields_classMember? (cls : ClassRef) (name : String) : Yields base (classMember? cls name) fun found? =>
    ∀ found, found? = some found → (base.table.classDef cls.id).members.lookup name = some found.1 ∧
      base.table.symbol found.1 = found.2 := by
  refine (yields_getClass cls.id).bind fun cls => ?_
  split
  case h_1 id looked =>
    refine (yields_getSymbol id).bind fun symbol => .pure ?_
    rintro same rfl _ ⟨⟩
    exact ⟨looked, same.symm⟩
  case h_2 => exact .pure fun _ _ same => nomatch same

theorem yields_getScopes : Yields base get fun state => state.scopes = base.scopes := fun state marked =>
  ⟨.refl state, fun _ => marked.scopes⟩

theorem yields_enumValue? (enumName name : String) (span : Span) : Yields base (enumValue? enumName name span) fun value? =>
    ∀ value, value? = some value → ∃ scope id word type, (name, id) ∈ (base.scopes.scope scope).symbols ∧
      (base.table.symbol id).kind = .constant (.int word type) ∧ value = .mk (.int word) span type := by
  have missing {post : Option Typed.Expr → Prop} :
      Yields base (do return some (← errorNode (.noSuchEnumValue enumName name) span)) post :=
    (yields_errorNode span (fun _ => False) rfl).bind fun _ => .pure False.elim
  refine (yields_lookup enumName).andThen fun found => ?_
  split
  · exact .pure fun _ same => nomatch same
  refine (yields_getSymbol _).andThen fun symbol => ?_
  split
  · refine yields_get.andThen fun _ => ?_
    split
    · exact .pure fun _ same => nomatch same
    rename_i home _
    refine yields_getScopes.bind fun state => ?_
    split
    case h_1 value found =>
      refine (yields_getSymbol value).bind fun symbol => ?_
      split
      case h_1 word type kind =>
        refine (yields_node (.int word) span type).bind fun made => .pure fun same declared scopes other given => ?_
        rw [scopes] at found
        exact ⟨home.scope, value, word, type, mem_of_lookup found, declared ▸ kind, Option.some.inj given ▸ same⟩
      case h_2 => exact missing
    case h_2 => exact missing
  · exact .pure fun _ same => nomatch same

/-- A read of a variable: the variable itself, or the value of a union that is known to hold one. -/
structure VariableRead (id : SymbolId) (symbol : Symbol) (type : Ty) (expr : Typed.Expr) : Prop where
  type : expr.type = type
  shape : expr.shape = variableShape id symbol ∨
    ∃ span, expr.shape = .unwrap (.mk (variableShape id symbol) span symbol.type)

theorem yields_readVariable (id : SymbolId) (symbol : Symbol) (span : Span) (maybeFreed : Bool) :
    Yields base (readVariable id symbol span maybeFreed) (VariableRead id symbol (base.facts.typeOf id symbol.type)) := by
  refine yields_getFacts.bind fun facts => ?_
  let Reads := VariableRead id symbol (facts.typeOf id symbol.type)
  have read : ∀ {type}, type = facts.typeOf id symbol.type → Yields base (node (variableShape id symbol) span type) Reads :=
    fun same => (yields_node _ _ _).mono fun _ made => made ▸ ⟨same, .inl rfl⟩
  dsimp only
  refine (yields_reportEither Reads fun _ => (yields_reportIf Reads fun _ => ?_).mono fun _ made => made.1).mono
    fun _ made same => same ▸ made.1
  split
  · split
    · exact read rfl
    · refine (yields_node _ _ _).bind fun inner => (yields_node _ _ _).mono fun _ made isInner => ?_
      rw [made, isInner]
      exact ⟨rfl, .inr ⟨span, rfl⟩⟩
  · exact read rfl

theorem yields_lookupVariable (name : String) : Yields base (lookupVariable name) fun found =>
    ∀ id, found = some id → base.scopes.lookup name = some id ∧ (base.table.symbol id).isVariable = true := by
  refine (yields_lookup name).bind fun found => ?_
  split
  · rename_i id
    refine (yields_getSymbol id).bind fun symbol => .pure fun same found other given => ?_
    split at given
    case isTrue isVariable =>
      rw [← Option.some.inj given, ← same]
      exact ⟨found.symm, isVariable⟩
    case isFalse => simp at given
  · exact .pure fun _ id given => by simp at given

structure TestedForNull (base : State) (left right : Syntax.Expr) (id : SymbolId) (inner : Ty) : Prop where
  compared : ∃ name, comparedWithNull? left right = some name ∧ base.scopes.lookup name = some id
  isVariable : (base.table.symbol id).isVariable = true
  type : base.facts.typeOf id (base.table.symbol id).type = .nullable inner

theorem yields_testedForNull? (left right : Syntax.Expr) :
    Yields base (testedForNull? left right) fun tested => ∀ id inner, tested = some (id, inner) →
      TestedForNull base left right id inner := by
  unfold testedForNull?
  split
  · exact .pure fun id inner given => by simp at given
  rename_i name compared
  refine (yields_lookupVariable name).bind fun found => ?_
  split
  · exact .pure fun _ id inner given => by simp at given
  rename_i id
  refine yields_getFacts.bind fun facts => (yields_getSymbol id).bind fun symbol => ?_
  split
  case h_1 inner type =>
    refine .pure fun sameSymbol sameFacts named other otherInner given => ?_
    obtain ⟨rfl, rfl⟩ := Prod.mk.inj (Option.some.inj given)
    obtain ⟨looked, isVariable⟩ := named id rfl
    exact ⟨⟨name, compared, looked⟩, isVariable, by rw [← sameFacts, ← sameSymbol, type]⟩
  case h_2 => exact .pure fun _ _ _ id inner given => by simp at given

def judgeTest (test : Typed.Expr) (target : Ty) (facts : Facts Ty) (tested? : Option SymbolId) : Check Branches := do
  match tested? with
  | none => return ⟨test, facts, facts⟩
  | some id =>
    if target.isError then return ⟨test, facts, facts⟩
    else
      let current := facts.typeOf id (← getSymbol id).type
      let whenFalse :=
        match complement? current target with
        | some rest => facts.narrow id rest
        | none => facts
      return ⟨test, facts.narrow id target, whenFalse⟩

def callNamed (name : String) (nameSpan span : Span) (arguments : List ExprCheck)
    (overloads? : Option (SymbolId × List FunctionInstance)) : Check Typed.Expr := do
  match overloads? with
  | some (id, overloads) => callFunction id name overloads (← valuesOf arguments) nameSpan span
  | none =>
    let callee ← checkName name nameSpan false
    callValue callee (← valuesOf arguments) span

end FplCompiler.Analysis

import FplCompiler.Analysis.Statement
import FplCompiler.Proofs.NodeChecks

/-! The checks inside of statements that only mark the state. -/

namespace FplCompiler

namespace Analysis

open Check

variable {base : State}

def noteVariable (value : Option Typed.Expr) (type : Ty) (id : SymbolId) : Check Typed.Stmt := do
  modifyFacts fun facts =>
    match value with
    | some value => factsAfterAssign facts id type (storedType value)
    | none => facts.declareUnset id
  statement (.declare id value)

def defineKnown (decl : Syntax.ConstDecl) (span : Span) (value : Typed.Expr) : Check Unit := do
  let (constant, type) ←
    match value.constant? with
    | some constant => pure (constant, value.type)
    | none =>
      if !value.type.isError then report .notConstant decl.value.span
      pure (.int 0 .error, .error)
  let _ ← define ⟨decl.name, span, type, false, .constant constant⟩

theorem yields_reportReassignment (id : SymbolId) (symbol : Symbol) (span : Span) :
    Yields base (reportReassignment id symbol span) fun _ => True := by
  refine yields_getFacts.andThen fun facts => ?_
  split
  · split <;> exact (yields_report _ _).mono fun _ _ => trivial
  · exact .pure trivial

def freeChecked (freed? : Option SymbolId) (value : Typed.Expr) : Check Typed.Stmt := do
  let inner := value.type.withoutNull
  if !inner.isHeapReference && !inner.isError then
    statement (.free (← errorNode (.cannotFree value.type.text) value.span))
  else
    match freed? with
    | some id =>
      if (← getFacts).isFreed id then report .possibleDoubleFree value.span
      modifyFacts (·.free id)
    | none => pure ()
    statement (.free value)

theorem yields_whenText (value : Constant) : Yields base (whenText value) fun _ => True := by
  unfold whenText
  split
  · refine (yields_getEnum _).andThen fun _ => ?_
    split <;> exact .pure trivial
  · exact .pure trivial
  · exact .pure trivial

def IsNewest (seen : List Constant) (value : Typed.Expr) (known : List Constant) : Prop :=
  ∃ constant, value.constant? = some constant ∧ known = constant :: seen ∧ ∀ other ∈ seen, constant.same other = false

theorem yields_checkDistinct (seen : List Constant) (value : Typed.Expr) :
    Yields base (checkDistinct seen value) fun known => value.type.isError = false → IsNewest seen value known := by
  unfold checkDistinct
  split
  case isTrue error => exact .pure fun proper => by simp [error] at proper
  split
  · exact (yields_report _ _).bind fun _ => .pure fun quiet => absurd rfl quiet
  case h_2 constant found =>
  split
  · exact (yields_whenText _).andThen fun _ => (yields_report _ _).bind fun _ => .pure fun quiet => absurd rfl quiet
  case isFalse new => exact .pure fun _ => ⟨constant, found, rfl, by simpa using new⟩

def goThroughWhen (expected? : Option Ty) (rest : List Syntax.Expr) (seen : List Constant) (value : Typed.Expr) :
    Check (List Typed.Expr × List Constant) := do
  let seen ← checkDistinct seen value
  let (values, seen) ← checkWhenValues expected? rest seen
  return (value :: values, seen)

end Analysis

end FplCompiler

import FplCompiler.Proofs.CalleeSaved
import FplCompiler.Proofs.LoweredFunctions

/-!
The functions of an analysed program write each temporary once. A place that is assigned to gives the register that
it was computed in only where it is an inline field, or a global variable whose union is known to hold a value.
-/

namespace FplCompiler

namespace Typed

def Expr.isInlineField (table : Declarations) (expr : Expr) : Bool :=
  match expr.shape with
  | .member _ field =>
    match (table.symbol field).kind with
    | .inlineField _ _ => true
    | _ => false
  | _ => false

def Expr.isUnwrappedGlobal (expr : Expr) : Bool :=
  match expr.shape with
  | .unwrap operand =>
    match operand.shape with
    | .globalVar _ => true
    | _ => false
  | _ => false

theorem Expr.IsPlace.isSettable {target : Expr} (place : target.IsPlace) {table : Declarations}
    (apart : target.isInlineField table = false) (known : target.isUnwrappedGlobal = false) :
    Codegen.IsSettable table target := by
  obtain ⟨shape, span, type⟩ := target
  cases shape
  case localVar => trivial
  case globalVar => trivial
  case index => trivial
  case member object field =>
    intro cls offset isInline
    have apart : (match (table.symbol field).kind with | .inlineField _ _ => true | _ => false) = false := apart
    rw [isInline] at apart
    cases apart
  case unwrap operand =>
    obtain ⟨shape, span, type⟩ := operand
    cases shape
    case localVar symbol => exact ⟨symbol, rfl⟩
    case globalVar => cases known
    all_goals exact place.elim
  all_goals exact place.elim

end Typed

namespace Ir

theorem error_of_mapM_error {α β ε : Type} {step : α → Except ε β} {elements : List α} {failure : ε}
    (failed : elements.mapM step = .error failure) : ∃ element ∈ elements, step element = .error failure := by
  induction elements with
  | nil => cases failed
  | cons element rest ih =>
    rw [List.mapM_cons] at failed
    cases first : step element with
    | error problem =>
      rw [first] at failed
      obtain rfl : problem = failure := Except.error.inj failed
      exact ⟨element, List.mem_cons_self, first⟩
    | ok result =>
      cases others : rest.mapM step with
      | error problem =>
        rw [first, others] at failed
        obtain rfl : problem = failure := Except.error.inj failed
        obtain ⟨origin, member, failing⟩ := ih others
        exact ⟨origin, List.mem_cons_of_mem _ member, failing⟩
      | ok results =>
        rw [first, others] at failed
        cases failed

theorem error_of_finish {program : Program} {failure : Failure} (failed : program.finish = .error failure) :
    ∃ function ∈ program.functions, function.finish = .error failure := by
  unfold Program.finish at failed
  cases functions : program.functions.mapM Function.finish with
  | error problem =>
    rw [functions] at failed
    obtain rfl : problem = failure := Except.error.inj failed
    exact error_of_mapM_error functions
  | ok results =>
    rw [functions] at failed
    cases failed

end Ir

namespace Codegen

open Ir

def machineArguments : ArgumentLimit :=
  ⟨31, by decide, by decide⟩

/-- If calls pass at most 31 arguments, and no inline field and no global variable whose union is known to hold a value
is assigned to, then each function that is generated for an analysed program writes every temporary at most once, and
finishing the program can only fail for want of a register. -/
theorem generate_writesOnce (sources : SourceMap) (files : List Syntax.FileTree)
    (few : ∀ expr ∈ (Analysis.analyze sources files).program.exprs, expr.shape.passed ≤ 31)
    (apart : ∀ target ∈ (Analysis.analyze sources files).program.targets,
      target.isInlineField (Analysis.analyze sources files).table = false ∧ target.isUnwrappedGlobal = false) :
    (∀ function ∈ (generate (Analysis.analyze sources files)).program.functions, function.WritesOnce) ∧
    ∀ failure, (generate (Analysis.analyze sources files)).program.finish = .error failure →
      ∃ register, failure.error = .noRegister register := by
  have places := Analysis.analyze_targets sources files
  generalize Analysis.analyze sources files = analyzed at few apart places
  have fits : ∀ stmt ∈ analyzed.program.statements, Fits machineArguments True analyzed.table stmt := by
    intro stmt inProgram
    refine ⟨fun part inStmt => few part (List.mem_flatMap.mpr ⟨stmt, inProgram, inStmt⟩), fun _ target assigned => ?_⟩
    have member : target ∈ analyzed.program.targets := List.mem_filterMap.mpr ⟨stmt, inProgram, assigned⟩
    exact (places target member).isSettable (apart target member).1 (apart target member).2
  have tidy := generate_tidy fits
  refine ⟨fun function member => (tidy function member).1.once trivial, fun failure failed => ?_⟩
  obtain ⟨function, member, failed⟩ := error_of_finish failed
  exact function.finish_error (tidy function member).1.fit.kinds ((tidy function member).1.once trivial) failed

def assignAll : List Syntax.FileTree :=
  let union : Syntax.TypeExpr := .mk (.errorUnion (.simple "String")) .nowhere
  let array : Syntax.TypeExpr := .mk (.array (some (.simple "Int"))) .nowhere
  let set (op : Syntax.AssignOp) (target : Syntax.Expr) : Syntax.Stmt := .at_ (.assign op target (.number 1))
  Syntax.oneFile [.class_ 1 "A" [] [.var "v" none (some (.number 1))],
    .function 2 "f" [("a", .simple "A"), ("b", array), ("x", union)] none
      [set .assign (.at_ (.member (.named "a") "v")), set .add (.at_ (.index (.named "b") (.number 0))),
        .var "y" (some union) (some (.named "x")),
        .at_ (.ifChain [.mk (some (.at_ (.isTest (.named "y") (.simple "Int")))) [set .add (.named "y")] .nowhere])]]

theorem generate_writesOnce_assignAll :
    (Analysis.analyze .empty assignAll).diagnostics = [] ∧ (Analysis.analyze .empty assignAll).program.targets.length = 4 ∧
    (∀ function ∈ (generate (Analysis.analyze .empty assignAll)).program.functions, function.WritesOnce) ∧
    ∀ failure, (generate (Analysis.analyze .empty assignAll)).program.finish = .error failure →
      ∃ register, failure.error = .noRegister register :=
  ⟨by decide +kernel, by decide +kernel, generate_writesOnce .empty assignAll (by decide +kernel) (by decide +kernel)⟩

def finishError? (files : List Syntax.FileTree) : Option BackendError :=
  match (generate (Analysis.analyze .empty files)).program.finish with
  | .error failure => some failure.error
  | .ok _ => none

def assignInline : List Syntax.FileTree :=
  let inline : Syntax.TypeExpr := .mk (.fixedArray (.simple "Int") (.number 3)) .nowhere
  Syntax.oneFile [.class_ 1 "B" [] [.var "arr" (some inline) none],
    .function 2 "f" [("a", .simple "B"), ("b", .simple "B")] none
      [.at_ (.assign .assign (.at_ (.member (.named "a") "arr")) (.at_ (.member (.named "b") "arr")))]]

def assignUnwrapped : List Syntax.FileTree :=
  let union : Syntax.TypeExpr := .mk (.errorUnion (.simple "String")) .nowhere
  let added : Syntax.Stmt := .at_ (.assign .add (.named "g") (.number 1))
  Syntax.oneFile [.var "g" (some union) (some (.at_ (.literal (.string "a")))),
    .function 1 "f" [] none
      [.at_ (.ifChain [.mk (some (.at_ (.isTest (.named "g") (.simple "Int")))) [added] .nowhere])]]

def passMany : List Syntax.FileTree :=
  let names : List String := "abcdefghijklmnopqrstuvwxyzABCDEF".toList.map Char.toString
  Syntax.oneFile [.function 1 "f" [] none [.at_ (.expression (.callOf "g" (List.replicate 32 (.number 0))))],
    .function 2 "g" (names.map fun name => (name, .simple "Int")) none []]

/-- Programs without errors in which a temporary is written twice. -/
theorem generated_temporaries_written_twice :
    ((Analysis.analyze .empty assignInline).diagnostics = [] ∧ finishError? assignInline = some (.writtenTwice "T1")) ∧
    ((Analysis.analyze .empty assignUnwrapped).diagnostics = [] ∧
      finishError? assignUnwrapped = some (.writtenTwice "T2")) ∧
    (Analysis.analyze .empty passMany).diagnostics = [] ∧ finishError? passMany = some (.writtenTwice "T0") := by
  decide +kernel

end Codegen

end FplCompiler

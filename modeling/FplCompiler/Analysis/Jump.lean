import FplCompiler.Analysis.Coercion

/-! Jumps: returns, and breaks and continues out of loop bodies. -/

namespace FplCompiler.Analysis

open Check

def checkReturned (span : Span) (value : Option Typed.Expr) : Check (Option Typed.Expr) := do
  match (← getContext).returnType, value with
  | none, _ =>
    report .returnOutsideFunction span
    return value
  | some type, some value =>
    if type.isReturned then return some (← coerce type value)
    else
      if !value.type.isError then report (.typeMismatch type.text value.type.text) value.span
      return some value
  | some type, none =>
    if type.isReturned then report (.missingReturnValue type.text) span
    return none

def checkReturn (span : Span) (value : Option Typed.Expr) : Check Typed.Expr := do
  let value ← checkReturned span value
  modifyFacts Facts.setUnreachable
  node (.returnExpr value) span .nothing

def checkJump (outside : Cause) (shape : Typed.ExprShape) (span : Span)
    (collect : LoopFrame → Facts Ty → LoopFrame) : Check Typed.Expr := do
  match (← getContext).frame with
  | none => errorNode outside span
  | some frame =>
    setFrame (some (collect frame (← getFacts)))
    modifyFacts Facts.setUnreachable
    node shape span .nothing

def checkBreak (span : Span) : Check Typed.Expr :=
  checkJump .breakOutsideLoop .breakExpr span fun frame facts =>
    { frame with breaks := frame.breaks ++ [facts] }

def checkContinue (span : Span) : Check Typed.Expr :=
  checkJump .continueOutsideLoop .continueExpr span fun frame facts =>
    { frame with continues := frame.continues ++ [facts] }

end FplCompiler.Analysis

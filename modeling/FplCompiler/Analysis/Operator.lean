import FplCompiler.Analysis.Coercion

/-! Operators: which operation two operands have, casts, and expressions with two branches. -/

namespace FplCompiler.Analysis

open Check

open Syntax (BinaryOp)

def intOperation? : BinaryOp → Option AluOp
  | .plus => some .addI
  | .minus => some .subI
  | .star => some .mulI
  | .slash => some .divI
  | .percent => some .modI
  | .left => some .shlI
  | .right => some .shrI
  | .amp => some .andI
  | .bar => some .orI
  | .caret => some .xorI
  | .eq => some .eqI
  | .neq => some .neqI
  | .lt => some .ltI
  | .lte => some .lteI
  | .gt => some .gtI
  | .gte => some .gteI
  | .and | .or => none

def realOperation? : BinaryOp → Option AluOp
  | .plus => some .addR
  | .minus => some .subR
  | .star => some .mulR
  | .slash => some .divR
  | .percent => some .modR
  | .eq => some .eqR
  | .neq => some .neqR
  | .lt => some .ltR
  | .lte => some .lteR
  | .gt => some .gtR
  | .gte => some .gteR
  | _ => none

def stringOperation? : BinaryOp → Option AluOp
  | .eq => some .eqS
  | .neq => some .neqS
  | .lt => some .ltS
  | .lte => some .lteS
  | .gt => some .gtS
  | .gte => some .gteS
  | _ => none

def comparableWithNull : Ty → Bool
  | .nullable _ | .null | .any => true
  | type => type.isHeapReference

def equalityComparable (left right : Ty) : Bool :=
  (left = .null && comparableWithNull right) || (right = .null && comparableWithNull left) ||
    (match left with
      | .unit | .nothing | .real | .null => false
      | _ => left.accepts right || right.accepts left)

def operation? (operator : BinaryOp) (left right : Ty) : Option AluOp :=
  let listed :=
    match left.promoted, right.promoted with
    | .int, .int => intOperation? operator
    | .real, .real => realOperation? operator
    | .string, .string => stringOperation? operator
    | _, _ => none
  match listed, operator with
  | some op, _ => some op
  | none, .eq => if equalityComparable left right then some .eqI else none
  | none, .neq => if equalityComparable left right then some .neqI else none
  | none, _ => none

def binaryNode (operator : BinaryOp) (span : Span) (left right : Typed.Expr) : Check Typed.Expr := do
  if left.type.isError || right.type.isError then silentError "invalid operand" span
  else
    match operation? operator left.type right.type with
    | none =>
      errorNode (.invalidBinaryOperator operator.symbol left.type.promoted.text right.type.promoted.text) span
    | some op =>
      node (.binary op left right) span (if op.isComparison then .bool else left.type.promoted)

def minusNode (span : Span) (operand : Typed.Expr) : Check Typed.Expr := do
  match operand.type.promoted with
  | .int => node (.minus operand) span .int
  | .real => node (.minus operand) span .real
  | .error => return operand
  | type => errorNode (.invalidUnaryOperator "-" type.text) span

def isWord : Ty → Bool
  | .int | .char | .bool | .enumeration _ => true
  | _ => false

def castAllowed (source target : Ty) : Bool :=
  source = target || source.isError || target.isError || (isWord source && isWord target) ||
    (target = .any &&
      (source.isHeapReference ||
        match source with
        | .nullable _ => true
        | _ => false))

def castNode (span : Span) (operand : Typed.Expr) (target : Ty) : Check Typed.Expr := do
  if castAllowed operand.type target then node (.cast operand) span target
  else errorNode (.invalidCast operand.type.text target.text) span

def branchType? (first second : Ty) : Option Ty :=
  if first = second || second.isError then some first
  else if first.isError then some second
  else if first = .null && !second.isValue then some second.orNull
  else if second = .null && !first.isValue then some first.orNull
  else if first.accepts second then some first
  else if second.accepts first then some second
  else none

def conditionalNode (span : Span) (condition thenBranch elseBranch : Typed.Expr) : Check Typed.Expr := do
  match branchType? thenBranch.type elseBranch.type with
  | some type => node (.conditional condition thenBranch elseBranch) span type
  | none => errorNode (.incompatibleBranches thenBranch.type.text elseBranch.type.text) span

def rangeOperation : Syntax.RangeOp → AluOp
  | .lt => .ltI
  | .lte => .lteI
  | .gt => .gtI
  | .gte => .gteI

def rangeNode (operator : Syntax.RangeOp) (span : Span) (start stop : Typed.Expr) : Check Typed.Expr := do
  if start.type.isError then silentError "invalid range" span
  else if start.type.promoted ≠ .int then errorNode (.invalidRange start.type.text) span
  else if stop.type.isError then silentError "invalid range" span
  else if stop.type.promoted ≠ .int then errorNode (.invalidRange stop.type.text) span
  else node (.range start stop (rangeOperation operator)) span (.range .int)

end FplCompiler.Analysis

import FplCompiler.Typed.Tree

/-! Values of expressions that are known before the program runs. -/

namespace FplCompiler.Typed

def foldReal? : AluOp → Single → Single → Option Single
  | .addR, left, right => some (left.add right)
  | .subR, left, right => some (left.subtract right)
  | .mulR, left, right => some (left.multiply right)
  | .divR, left, right => some (left.divide right)
  | _, _, _ => none

def foldBinary? (op : AluOp) (type : Ty) : Constant → Constant → Option Constant
  | .int left _, .int right _ => (op.evaluate? left right).map (.int · type)
  | .real left, .real right => (foldReal? op left right).map .real
  | _, _ => none

def Expr.constant? : Expr → Option Constant
  | .mk (.int value) _ type => some (.int value type)
  | .mk (.real value) _ _ => some (.real value.toSingle)
  | .mk (.string value) _ _ => some (.string value)
  | .mk (.minus operand) _ type =>
    match operand.constant? with
    | some (.int value _) => some (.int (-value) type)
    | some (.real value) => some (.real value.negate)
    | _ => none
  | .mk (.cast operand) _ type =>
    match operand.constant? with
    | some (.int value _) => some (.int value type)
    | other => other
  | .mk (.binary op left right) _ type =>
    match left.constant?, right.constant? with
    | some left, some right => foldBinary? op type left right
    | _, _ => none
  | _ => none

end FplCompiler.Typed

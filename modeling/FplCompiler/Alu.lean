/-! The operations of the arithmetic unit. The last letter says what the operands are: integers, reals or strings. -/

namespace FplCompiler

inductive AluOp where
  | addI | subI | mulI | divI | modI | andI | orI | xorI | shlI | shrI
  | eqI | neqI | ltI | lteI | gtI | gteI
  | addR | subR | mulR | divR | modR
  | eqR | neqR | ltR | lteR | gtR | gteR
  | eqS | neqS | ltS | lteS | gtS | gteS
  | idx1 | idx4
  deriving DecidableEq, Repr, Inhabited

namespace AluOp

def all : List AluOp :=
  [addI, subI, mulI, divI, modI, andI, orI, xorI, shlI, shrI, eqI, neqI, ltI, lteI, gtI, gteI,
    addR, subR, mulR, divR, modR, eqR, neqR, ltR, lteR, gtR, gteR, eqS, neqS, ltS, lteS, gtS, gteS,
    idx1, idx4]

def name : AluOp → String
  | addI => "ADD_I"
  | subI => "SUB_I"
  | mulI => "MUL_I"
  | divI => "DIV_I"
  | modI => "MOD_I"
  | andI => "AND_I"
  | orI => "OR_I"
  | xorI => "XOR_I"
  | shlI => "SHL_I"
  | shrI => "SHR_I"
  | eqI => "EQ_I"
  | neqI => "NEQ_I"
  | ltI => "LT_I"
  | lteI => "LTE_I"
  | gtI => "GT_I"
  | gteI => "GTE_I"
  | addR => "ADD_R"
  | subR => "SUB_R"
  | mulR => "MUL_R"
  | divR => "DIV_R"
  | modR => "MOD_R"
  | eqR => "EQ_R"
  | neqR => "NEQ_R"
  | ltR => "LT_R"
  | lteR => "LTE_R"
  | gtR => "GT_R"
  | gteR => "GTE_R"
  | eqS => "EQ_S"
  | neqS => "NEQ_S"
  | ltS => "LT_S"
  | lteS => "LTE_S"
  | gtS => "GT_S"
  | gteS => "GTE_S"
  | idx1 => "idx1"
  | idx4 => "idx4"

def isComparison : AluOp → Bool
  | eqI | neqI | ltI | lteI | gtI | gteI
  | eqR | neqR | ltR | lteR | gtR | gteR
  | eqS | neqS | ltS | lteS | gtS | gteS => true
  | _ => false

def isCommutative : AluOp → Bool
  | addI | mulI | andI | orI | xorI | eqI | neqI => true
  | _ => false

def ofStringComparison? : AluOp → Option AluOp
  | eqS => some eqI
  | neqS => some neqI
  | ltS => some ltI
  | lteS => some lteI
  | gtS => some gtI
  | gteS => some gteI
  | _ => none

def inverse? : AluOp → Option AluOp
  | eqI => some neqI
  | neqI => some eqI
  | ltI => some gteI
  | lteI => some gtI
  | gtI => some lteI
  | gteI => some ltI
  | _ => none

def truth (condition : Bool) : Int32 :=
  if condition then 1 else 0

/-- The result of an operation on integers: words wrap, a shift counts modulo the width, and a comparison gives 0 or 1.
There is none for a division by zero and for other operands. -/
def evaluate? : AluOp → Int32 → Int32 → Option Int32
  | addI, left, right => some (left + right)
  | subI, left, right => some (left - right)
  | mulI, left, right => some (left * right)
  | divI, left, right => if right = 0 then none else some (left / right)
  | modI, left, right => if right = 0 then none else some (left % right)
  | andI, left, right => some (left &&& right)
  | orI, left, right => some (left ||| right)
  | xorI, left, right => some (left ^^^ right)
  | shlI, left, right => some (left <<< right)
  | shrI, left, right => some (left >>> right)
  | eqI, left, right => some (truth (left = right))
  | neqI, left, right => some (truth (left ≠ right))
  | ltI, left, right => some (truth (left < right))
  | lteI, left, right => some (truth (left ≤ right))
  | gtI, left, right => some (truth (right < left))
  | gteI, left, right => some (truth (right ≤ left))
  | _, _, _ => none

def indexFor (elementSize : Nat) : AluOp :=
  if elementSize = 1 then idx1 else idx4

end AluOp

end FplCompiler

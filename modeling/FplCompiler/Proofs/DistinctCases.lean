import FplCompiler.Analysis.Statement
import FplCompiler.Proofs.TypedTree
import Mathlib.Data.List.Pairwise

/-!
What the check of a `when` statement sees to: the values of its clauses are known constants of the type of its subject, and
no two of them are the same.
-/

namespace FplCompiler

def Ty.isCounted : Ty → Bool
  | .int | .char | .bool | .null | .enumeration _ => true
  | _ => false

/-- The types that an expression of this value may have. -/
def Constant.HasType (type : Ty) : Constant → Prop
  | .int _ own => own = type ∧ type.isCounted = true
  | .real _ => type = .real
  | .string _ => type = .string ∨ type = .any

namespace Typed

def IsDistinct (constants : List Constant) : Prop :=
  constants.Pairwise fun later earlier => later.same earlier = false

structure Chooses (subject : Expr) (clauses : List WhenClause) : Prop where
  choosable : Analysis.isChoosable subject.type.promoted = true
  known : ∀ clause ∈ clauses, ∀ value ∈ clause.values,
    ∃ constant, value.constant? = some constant ∧ constant.HasType subject.type
  distinct : IsDistinct ((clauses.flatMap WhenClause.values).filterMap Expr.constant?).reverse
  elseLast : clauses.Pairwise fun earlier _ => earlier.values ≠ []

end Typed

end FplCompiler

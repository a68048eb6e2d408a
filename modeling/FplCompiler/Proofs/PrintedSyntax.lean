import FplCompiler.Syntax.ExprParser

/-!
How expressions and types are printed: as tokens, with brackets only around an operand that binds less tightly than its
position asks for. A text is made of pieces, since two brackets that close type arguments next to each other make one
token. With which token a text can begin depends on how tightly it binds.
-/

namespace FplCompiler.Syntax

variable {text : List Piece}

inductive Piece where
  | token (kind : TokenKind) (lexeme : String)
  | close

def fuse : List Piece → List (TokenKind × String)
  | [] => []
  | .token kind lexeme :: rest => (kind, lexeme) :: fuse rest
  | .close :: .close :: rest => (.right, ">>") :: fuse rest
  | .close :: rest => (.gt, ">") :: fuse rest

def mark (kind : TokenKind) : Piece :=
  .token kind kind.text

def commas : List (List Piece) → List Piece
  | [] => []
  | first :: rest => first ++ rest.flatMap (mark .comma :: ·)

def between (opening closing : TokenKind) (text : List Piece) : List Piece :=
  mark opening :: (text ++ [mark closing])

def wrap (position rank : Nat) (text : List Piece) : List Piece :=
  if rank < position then between .openRound .closeRound text else text

def BinaryOp.kind : BinaryOp → TokenKind
  | plus => .plus
  | minus => .minus
  | star => .star
  | slash => .slash
  | percent => .percent
  | left => .left
  | right => .right
  | amp => .amp
  | bar => .bar
  | caret => .caret
  | lt => .lt
  | gt => .gt
  | lte => .lte
  | gte => .gte
  | eq => .eq
  | neq => .neq
  | and => .andKw
  | or => .orKw

def BinaryOp.rank : BinaryOp → Nat
  | or => 2
  | and => 3
  | lt | gt | lte | gte | eq | neq => 4
  | plus | minus | bar | caret => 6
  | star | slash | percent | left | right | amp => 7

def UnaryOp.kind : UnaryOp → TokenKind
  | minus => .minus
  | not => .notKw

def RangeOp.pieces : RangeOp → List Piece
  | lt => [mark .lt]
  | lte => []
  | gt => [mark .gt]
  | gte => [mark .gte]

def Literal.piece : Literal → Piece
  | int value => .token .intLit value.toNatClampNeg.repr
  | real _ => mark .realLit
  | char value => .token .charLit value.toString
  | string value => .token .stringLit value

def Expr.rank : Expr → Nat
  | .mk (.conditional _ _ _) _ | .mk (.returnExpr _) _ => 0
  | .mk (.cast _ _) _ | .mk (.isTest _ _) _ => 1
  | .mk (.binary operator _ _) _ => operator.rank
  | .mk (.range _ _ _) _ => 5
  | .mk (.unary _ _) _ => 8
  | .mk (.index _ _) _ | .mk (.member _ _) _ | .mk (.call _ _) _ => 9
  | _ => 10

mutual

def Expr.text : Expr → List Piece
  | .mk (.literal value) _ => [value.piece]
  | .mk (.name name) _ => [.token .id name]
  | .mk (.binary operator left right) _ =>
    wrap operator.rank left.rank left.text ++ mark operator.kind :: wrap (operator.rank + 1) right.rank right.text
  | .mk (.unary operator operand) _ => mark operator.kind :: wrap 9 operand.rank operand.text
  | .mk (.index object index) _ => wrap 9 object.rank object.text ++ between .openSquare .closeSquare index.text
  | .mk (.member object name) _ =>
    wrap 9 object.rank object.text ++ [mark .dot, .token (if name = "free" then .freeKw else .id) name]
  | .mk (.call callee arguments) _ =>
    wrap 9 callee.rank callee.text ++ between .openRound .closeRound (commas (texts arguments))
  | .mk (.range start stop operator) _ =>
    wrap 6 start.rank start.text ++ mark .dotDot :: (operator.pieces ++ wrap 6 stop.rank stop.text)
  | .mk (.cast operand target) _ => wrap 2 operand.rank operand.text ++ mark .asKw :: target.text
  | .mk (.isTest operand target) _ => wrap 2 operand.rank operand.text ++ mark .isKw :: target.text
  | .mk (.conditional condition thenBranch elseBranch) _ =>
    mark .ifKw :: (wrap 1 condition.rank condition.text ++
      mark .thenKw :: (thenBranch.text ++ mark .elseKw :: elseBranch.text))
  | .mk (.create type arguments fill onStack) _ =>
    mark (if onStack then .localKw else .newKw) ::
      (type.text ++ (between .openRound .closeRound (commas (texts arguments)) ++ fill.text))
  | .mk (.createList type elements onStack) _ =>
    mark (if onStack then .localKw else .newKw) ::
      (type.text ++ between .openSquare .closeSquare (commas (texts elements)))
  | .mk (.returnExpr none) _ => [mark .returnKw]
  | .mk (.returnExpr (some value)) _ => mark .returnKw :: value.text
  | .mk .breakExpr _ => [mark .breakKw]
  | .mk .continueExpr _ => [mark .continueKw]

def texts : List Expr → List (List Piece)
  | [] => []
  | expr :: rest => expr.text :: texts rest

def Fill.text : Fill → List Piece
  | .none => []
  | .each body _ => between .openCurly .closeCurly body.text

def TypeExpr.text : TypeExpr → List Piece
  | .mk (.named name []) _ => [.token .id name]
  | .mk (.named name (first :: rest)) _ =>
    .token .id name :: mark .lt :: (commas (first.text :: typeTexts rest) ++ [.close])
  | .mk (.array none) _ => [mark .arrayKw]
  | .mk (.array (some element)) _ => mark .arrayKw :: mark .lt :: (element.text ++ [.close])
  | .mk (.fixedArray element size) _ =>
    mark .fixedArrayKw :: mark .lt :: (element.text ++ .close :: between .openRound .closeRound size.text)
  | .mk (.range element) _ => mark .rangeKw :: mark .lt :: (element.text ++ [.close])
  | .mk (.nullable inner) _ => inner.text ++ [mark .question]
  | .mk (.errorUnion inner) _ => inner.text ++ [mark .bang]

def typeTexts : List TypeExpr → List (List Piece)
  | [] => []
  | type :: rest => type.text :: typeTexts rest

end

mutual

def Expr.bare : Expr → Expr
  | .mk shape _ => .mk shape.bare .nowhere

def ExprShape.bare : ExprShape → ExprShape
  | .literal value => .literal value
  | .name name => .name name
  | .binary operator left right => .binary operator left.bare right.bare
  | .unary operator operand => .unary operator operand.bare
  | .index object index => .index object.bare index.bare
  | .member object name => .member object.bare name
  | .call callee arguments => .call callee.bare (bareAll arguments)
  | .range start stop operator => .range start.bare stop.bare operator
  | .cast operand target => .cast operand.bare target.bare
  | .isTest operand target => .isTest operand.bare target.bare
  | .conditional condition thenBranch elseBranch => .conditional condition.bare thenBranch.bare elseBranch.bare
  | .create type arguments fill onStack => .create type.bare (bareAll arguments) fill.bare onStack
  | .createList type elements onStack => .createList type.bare (bareAll elements) onStack
  | .returnExpr none => .returnExpr none
  | .returnExpr (some value) => .returnExpr (some value.bare)
  | .breakExpr => .breakExpr
  | .continueExpr => .continueExpr

def bareAll : List Expr → List Expr
  | [] => []
  | expr :: rest => expr.bare :: bareAll rest

def Fill.bare : Fill → Fill
  | .none => .none
  | .each body _ => .each body.bare .nowhere

def TypeExpr.bare : TypeExpr → TypeExpr
  | .mk shape _ => .mk shape.bare .nowhere

def TypeShape.bare : TypeShape → TypeShape
  | .named name arguments => .named name (bareTypes arguments)
  | .array none => .array none
  | .array (some element) => .array (some element.bare)
  | .fixedArray element size => .fixedArray element.bare size.bare
  | .range element => .range element.bare
  | .nullable inner => .nullable inner.bare
  | .errorUnion inner => .errorUnion inner.bare

def bareTypes : List TypeExpr → List TypeExpr
  | [] => []
  | type :: rest => type.bare :: bareTypes rest

end

def Expr.endsBare : Expr → Bool
  | .mk (.returnExpr none) _ => true
  | .mk (.returnExpr (some value)) _ => value.endsBare
  | .mk (.conditional _ _ elseBranch) _ => elseBranch.endsBare
  | _ => false

def Literal.isPlain : Literal → Bool
  | int value => 0 ≤ value
  | real _ => false
  | char _ | string _ => true

def TypeExpr.isMarked : TypeExpr → Bool
  | .mk (.nullable _) _ | .mk (.errorUnion _) _ => true
  | _ => false

mutual

def Expr.isPlain : Expr → Bool
  | .mk (.literal value) _ => value.isPlain
  | .mk (.binary _ left right) _ | .mk (.range left right _) _ | .mk (.index left right) _ => left.isPlain && right.isPlain
  | .mk (.unary _ operand) _ | .mk (.member operand _) _ | .mk (.returnExpr (some operand)) _ => operand.isPlain
  | .mk (.call callee arguments) _ => callee.isPlain && arePlain arguments
  | .mk (.cast operand target) _ | .mk (.isTest operand target) _ => operand.isPlain && target.isPlain
  | .mk (.conditional condition thenBranch elseBranch) _ =>
    condition.isPlain && thenBranch.isPlain && !thenBranch.endsBare && elseBranch.isPlain
  | .mk (.create type arguments fill _) _ => type.isPlain && arePlain arguments && fill.isPlain
  | .mk (.createList type elements _) _ => type.isPlain && arePlain elements
  | _ => true

def arePlain : List Expr → Bool
  | [] => true
  | expr :: rest => expr.isPlain && (rest.isEmpty || !expr.endsBare) && arePlain rest

def Fill.isPlain : Fill → Bool
  | .none => true
  | .each body _ => body.isPlain

def TypeExpr.isPlain : TypeExpr → Bool
  | .mk (.named _ arguments) _ => arePlainTypes arguments
  | .mk (.array none) _ => true
  | .mk (.array (some element)) _ | .mk (.range element) _ => element.isPlain
  | .mk (.fixedArray element size) _ => element.isPlain && size.isPlain
  | .mk (.nullable inner) _ | .mk (.errorUnion inner) _ => inner.isPlain && !inner.isMarked

def arePlainTypes : List TypeExpr → Bool
  | [] => true
  | type :: rest => type.isPlain && arePlainTypes rest

end

attribute [simp] Expr.bare ExprShape.bare Fill.bare TypeExpr.bare TypeShape.bare Expr.text TypeExpr.text Fill.text

theorem texts_eq_map (exprs : List Expr) : texts exprs = exprs.map Expr.text := by
  induction exprs with
  | nil => rfl
  | cons expr rest ih => simp [texts, ih]

theorem typeTexts_eq_map (types : List TypeExpr) : typeTexts types = types.map TypeExpr.text := by
  induction types with
  | nil => rfl
  | cons type rest ih => simp [typeTexts, ih]

theorem bareAll_eq_map (exprs : List Expr) : bareAll exprs = exprs.map Expr.bare := by
  induction exprs with
  | nil => rfl
  | cons expr rest ih => simp [bareAll, ih]

theorem bareTypes_eq_map (types : List TypeExpr) : bareTypes types = types.map TypeExpr.bare := by
  induction types with
  | nil => rfl
  | cons type rest ih => simp [bareTypes, ih]

def begins (rank : Nat) : TokenKind → Bool
  | .id | .intLit | .realLit | .charLit | .stringLit | .openRound | .breakKw | .continueKw | .newKw | .localKw => true
  | .minus | .notKw => rank ≤ 8
  | .ifKw | .returnKw => rank = 0
  | _ => false

def Begins (rank : Nat) (text : List Piece) : Prop :=
  ∃ kind lexeme more, text = .token kind lexeme :: more ∧ begins rank kind = true

theorem Begins.mono {rank lower : Nat} (opens : Begins rank text) (below : lower ≤ rank) :
    Begins lower text := by
  obtain ⟨kind, lexeme, more, same, allowed⟩ := opens
  refine ⟨kind, lexeme, more, same, ?_⟩
  cases kind <;> simp_all [begins] <;> omega

theorem Begins.append {rank : Nat} (opens : Begins rank text) (after : List Piece) :
    Begins rank (text ++ after) := by
  obtain ⟨kind, lexeme, more, rfl, allowed⟩ := opens
  exact ⟨kind, lexeme, more ++ after, rfl, allowed⟩

theorem Begins.wrap {rank : Nat} (opens : Begins rank text) (position : Nat) :
    Begins position (wrap position rank text) := by
  unfold Syntax.wrap
  split
  · exact ⟨.openRound, _, _, rfl, rfl⟩
  · exact opens.mono (by omega)

theorem Expr.begins_text : ∀ expr : Expr, Begins expr.rank expr.text
  | .mk (.literal value) _ => by cases value <;> exact ⟨_, _, _, rfl, rfl⟩
  | .mk (.name name) _ => ⟨_, _, _, rfl, rfl⟩
  | .mk (.binary operator left right) _ => by
      exact (left.begins_text.wrap _).append _
  | .mk (.unary operator operand) _ => ⟨_, _, _, rfl, by cases operator <;> rfl⟩
  | .mk (.index object index) _ => (object.begins_text.wrap 9).append _
  | .mk (.member object name) _ => (object.begins_text.wrap 9).append _
  | .mk (.call callee arguments) _ => (callee.begins_text.wrap 9).append _
  | .mk (.range start stop operator) _ => ((start.begins_text.wrap 6).mono (Nat.le_succ 5)).append _
  | .mk (.cast operand target) _ => ((operand.begins_text.wrap 2).mono (Nat.le_succ 1)).append _
  | .mk (.isTest operand target) _ => ((operand.begins_text.wrap 2).mono (Nat.le_succ 1)).append _
  | .mk (.conditional _ _ _) _ => ⟨_, _, _, rfl, rfl⟩
  | .mk (.create _ _ _ onStack) _ => ⟨_, _, _, rfl, by cases onStack <;> rfl⟩
  | .mk (.createList _ _ onStack) _ => ⟨_, _, _, rfl, by cases onStack <;> rfl⟩
  | .mk (.returnExpr none) _ => ⟨_, _, _, rfl, rfl⟩
  | .mk (.returnExpr (some _)) _ => ⟨_, _, _, rfl, rfl⟩
  | .mk .breakExpr _ => ⟨_, _, _, rfl, rfl⟩
  | .mk .continueExpr _ => ⟨_, _, _, rfl, rfl⟩

end FplCompiler.Syntax

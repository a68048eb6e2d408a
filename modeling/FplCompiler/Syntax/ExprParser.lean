import FplCompiler.Syntax.TokenStream
import FplCompiler.Syntax.Tree

/-! Reading expressions and types. The rules are given with the reading of inner expressions and inner types as a
parameter; `grammar` ties the knot. Every use of an inner rule comes after a token that was stepped over, so a
nesting as deep as there are tokens is enough. -/

namespace FplCompiler.Syntax

structure Grammar where
  expression : Parser Expr
  type : Parser TypeExpr

def newExpr (shape : ExprShape) (span : Span) : Reader Expr := do
  modify fun stream => { stream with expressionCount := stream.expressionCount + 1 }
  return .mk shape span

def multiplicative : TokenKind → Option BinaryOp
  | .star => some .star
  | .slash => some .slash
  | .percent => some .percent
  | .left => some .left
  | .right => some .right
  | .amp => some .amp
  | _ => none

def additive : TokenKind → Option BinaryOp
  | .plus => some .plus
  | .minus => some .minus
  | .bar => some .bar
  | .caret => some .caret
  | _ => none

def comparison : TokenKind → Option BinaryOp
  | .lt => some .lt
  | .gt => some .gt
  | .lte => some .lte
  | .gte => some .gte
  | .eq => some .eq
  | .neq => some .neq
  | _ => none

def conjunction : TokenKind → Option BinaryOp
  | .andKw => some .and
  | _ => none

def disjunction : TokenKind → Option BinaryOp
  | .orKw => some .or
  | _ => none

def unaryOperator : TokenKind → Option UnaryOp
  | .minus => some .minus
  | .notKw => some .not
  | _ => none

def rangeOperator : TokenKind → Option RangeOp
  | .lt => some .lt
  | .gt => some .gt
  | .lte => some .lte
  | .gte => some .gte
  | _ => none

def endsReturn : TokenKind → Bool
  | .eol | .closeRound | .closeSquare | .closeCurly => true
  | _ => false

def digitValue? (base : Nat) (character : Char) : Option Nat :=
  let value :=
    if character.isDigit then character.toNat - '0'.toNat
    else if 'a' ≤ character && character ≤ 'z' then character.toNat - 'a'.toNat + 10
    else if 'A' ≤ character && character ≤ 'Z' then character.toNat - 'A'.toNat + 10
    else base
  if value < base then some value else none

def numeral? (base : Nat) (characters : List Char) : Option Nat :=
  if characters.isEmpty then none
  else characters.foldlM (fun value character => (digitValue? base character).map (base * value + ·)) 0

def wordLiteral? (text : String) : Option Int32 :=
  match text.toList with
  | '0' :: mark :: digits =>
    if mark = 'x' || mark = 'X' then
      (numeral? 16 digits).bind fun value =>
        if value < UInt32.size then some (Int32.ofNat value) else none
    else decimal ('0' :: mark :: digits)
  | digits => decimal digits
where
  decimal (digits : List Char) : Option Int32 :=
    (numeral? 10 digits).bind fun value =>
      if value < UInt32.size / 2 then some (Int32.ofNat value) else none

def literalOr (value : Option Literal) (cause : Cause) (default : Literal) (span : Span) :
    Reader Expr := do
  match value with
  | some value => newExpr (.literal value) span
  | none =>
    report cause span
    newExpr (.literal default) span

def charLiteral (token : Token) : Reader Expr :=
  let value :=
    match token.lexeme.toList with
    | [character] => some (Literal.char character)
    | _ => none
  literalOr value (.malformedChar token.lexeme) (.char (token.lexeme.toList.headD '\x00')) token.span

def creation (grammar : Grammar) : Parser Expr := do
  let token ← bump
  let onStack := token.kind == .localKw
  let type ← grammar.type
  if ← looksAt .openSquare then
    let elements ← delimited .openSquare .closeSquare grammar.expression
    newExpr (.createList type elements onStack) token.span
  else
    let arguments ←
      if ← looksAt .openRound then delimited .openRound .closeRound grammar.expression else pure []
    if ← looksAt .openCurly then
      let brace ← bump
      let body ← grammar.expression
      discard (expect .closeCurly)
      modify fun stream => { stream with expressionCount := stream.expressionCount + 1 }
      newExpr (.create type arguments (.each body brace.span) onStack) token.span
    else newExpr (.create type arguments .none onStack) token.span

def primary (grammar : Grammar) : Parser Expr := do
  match ← kind with
  | .id =>
    let token ← bump
    newExpr (.name token.lexeme) token.span
  | .intLit =>
    let token ← bump
    literalOr ((wordLiteral? token.lexeme).map .int) (.malformedInt token.lexeme) (.int 0) token.span
  | .realLit =>
    let token ← bump
    literalOr ((Double.ofText? token.lexeme).map .real) (.malformedReal token.lexeme) (.real ⟨0⟩)
      token.span
  | .charLit => charLiteral (← bump)
  | .stringLit =>
    let token ← bump
    newExpr (.literal (.string token.lexeme)) token.span
  | .openRound =>
    discard bump
    let expression ← grammar.expression
    discard (expect .closeRound)
    return expression
  | .returnKw =>
    let token ← bump
    if endsReturn (← kind) then newExpr (.returnExpr none) token.span
    else
      let value ← grammar.expression
      newExpr (.returnExpr (some value)) token.span
  | .breakKw =>
    let token ← bump
    newExpr .breakExpr token.span
  | .continueKw =>
    let token ← bump
    newExpr .continueExpr token.span
  | .newKw => creation grammar
  | .localKw => creation grammar
  | _ => failHere fun token => .unexpectedToken s!"'{token.lexeme}'" "primary expression"

def suffixes (grammar : Grammar) : Nat → Expr → Parser Expr
  | 0, expression => return expression
  | bound + 1, expression => do
    match ← kind with
    | .openSquare =>
      discard bump
      let index ← grammar.expression
      discard (expect .closeSquare)
      suffixes grammar bound (← newExpr (.index expression index) expression.span)
    | .dot =>
      discard bump
      let name ← expectName
      suffixes grammar bound (← newExpr (.member expression name.lexeme) expression.span)
    | .openRound =>
      let arguments ← delimited .openRound .closeRound grammar.expression
      suffixes grammar bound (← newExpr (.call expression arguments) expression.span)
    | _ => return expression

def suffixed (grammar : Grammar) : Parser Expr := do
  let expression ← primary grammar
  suffixes grammar ((← get).remaining + 1) expression

def unary (grammar : Grammar) : Parser Expr := do
  match unaryOperator (← kind) with
  | some operator =>
    let token ← bump
    let operand ← suffixed grammar
    newExpr (.unary operator operand) token.span
  | none => suffixed grammar

def leftAssociated (operators : TokenKind → Option BinaryOp) (operand : Parser Expr) :
    Nat → Expr → Parser Expr
  | 0, left => return left
  | bound + 1, left => do
    match operators (← kind) with
    | some operator =>
      let token ← bump
      let right ← operand
      leftAssociated operators operand bound (← newExpr (.binary operator left right) token.span)
    | none => return left

def level (operators : TokenKind → Option BinaryOp) (operand : Parser Expr) : Parser Expr := do
  let first ← operand
  leftAssociated operators operand ((← get).remaining + 1) first

def sum (grammar : Grammar) : Parser Expr :=
  level additive (level multiplicative (unary grammar))

def rangeOrSum (grammar : Grammar) : Parser Expr := do
  let start ← sum grammar
  if ← looksAt .dotDot then
    let token ← bump
    match rangeOperator (← kind) with
    | some operator =>
      discard bump
      let stop ← sum grammar
      newExpr (.range start stop operator) token.span
    | none =>
      let stop ← sum grammar
      newExpr (.range start stop .lte) token.span
  else return start

def logical (grammar : Grammar) : Parser Expr :=
  level disjunction (level conjunction (level comparison (rangeOrSum grammar)))

def castOrTest (grammar : Grammar) : Parser Expr := do
  let operand ← logical grammar
  if ← looksAt .asKw then
    let token ← bump
    let target ← grammar.type
    newExpr (.cast operand target) token.span
  else if ← looksAt .isKw then
    let token ← bump
    let target ← grammar.type
    newExpr (.isTest operand target) token.span
  else return operand

def expressionRule (grammar : Grammar) : Parser Expr := do
  if ← eat .ifKw then
    let condition ← castOrTest grammar
    discard (expect .thenKw)
    let thenBranch ← grammar.expression
    discard (expect .elseKw)
    let elseBranch ← grammar.expression
    newExpr (.conditional condition thenBranch elseBranch) condition.span
  else castOrTest grammar

def typeArgument (grammar : Grammar) : Parser TypeExpr := do
  discard (expect .lt)
  let type ← grammar.type
  expectGreater
  return type

def plainType (grammar : Grammar) : Parser TypeShape := do
  match ← kind with
  | .id =>
    let token ← bump
    if ← eat .lt then
      let arguments ← separated grammar.type
      expectGreater
      return .named token.lexeme arguments
    else return .named token.lexeme []
  | .arrayKw =>
    discard bump
    if ← eat .lt then
      let element ← grammar.type
      expectGreater
      return .array (some element)
    else return .array none
  | .rangeKw =>
    discard bump
    return .range (← typeArgument grammar)
  | .fixedArrayKw =>
    discard bump
    let element ← typeArgument grammar
    discard (expect .openRound)
    let size ← grammar.expression
    discard (expect .closeRound)
    return .fixedArray element size
  | _ => failHere fun token => .unexpectedToken s!"'{token.lexeme}'" "type expression"

def typeRule (grammar : Grammar) : Parser TypeExpr := do
  let span := (← peek).span
  let type := TypeExpr.mk (← plainType grammar) span
  if ← eat .question then return .mk (.nullable type) span
  else if ← eat .bang then return .mk (.errorUnion type) span
  else return type

def grammar : Nat → Grammar
  | 0 =>
    ⟨failHere fun token => .unexpectedToken s!"'{token.lexeme}'" "primary expression",
      failHere fun token => .unexpectedToken s!"'{token.lexeme}'" "type expression"⟩
  | depth + 1 =>
    let inner := grammar depth
    ⟨expressionRule inner, typeRule inner⟩

end FplCompiler.Syntax

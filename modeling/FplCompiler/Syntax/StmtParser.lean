import FplCompiler.Syntax.ExprParser

/-! Reading statements. As with expressions, the reading of inner statements is a parameter, and every use of it
comes after a token that was stepped over. -/

namespace FplCompiler.Syntax

def newStmt (shape : StmtShape) (span : Span) : Reader Stmt := do
  modify fun stream => { stream with statementCount := stream.statementCount + 1 }
  return .mk shape span

def recovered (span : Span) (statement : Parser Stmt) : Reader Stmt := do
  match ← statement.run with
  | .ok statement => return statement
  | .error diagnostic =>
    modify fun stream => { stream with recoveries := stream.recoveries ++ [diagnostic.cause] }
    report diagnostic.cause diagnostic.span
    skipLine
    newStmt .missing span

def untilDedent (item : Reader α) : Nat → Reader (List α)
  | 0 => return []
  | bound + 1 => do
    if (← looksAt .dedent) || (← looksAt .eof) then return []
    else
      let first ← item
      return first :: (← untilDedent item bound)

def indented (item : Reader Stmt) : Reader (List Stmt) := do
  if ← looksAt .indent then
    discard bump
    let body ← untilDedent item ((← get).remaining + 1)
    match ← (expect .dedent).run with
    | .ok _ => pure ()
    | .error diagnostic => report diagnostic.cause diagnostic.span
    return body
  else
    reportHere .missingBlock
    return []

def optionalType (grammar : Grammar) : Parser (Option TypeExpr) := do
  if ← eat .colon then return some (← grammar.type) else return none

def variableStatement (grammar : Grammar) : Parser Stmt := do
  let token ← bump
  let name ← expect .id
  let type ← optionalType grammar
  let value ← if ← eat .eq then some <$> grammar.expression else pure none
  expectEndOfLine
  newStmt (.variableDecl ⟨token.kind == .varKw, name.lexeme, type, value⟩) token.span

def constStatement (grammar : Grammar) : Parser Stmt := do
  let token ← bump
  let name ← expect .id
  let type ← optionalType grammar
  discard (expect .eq)
  let value ← grammar.expression
  expectEndOfLine
  newStmt (.constDecl ⟨name.lexeme, type, value⟩) token.span

def parameterKind (forConstructor : Bool) : Reader ParameterKind := do
  if (← looksAt .valKw) || (← looksAt .varKw) then
    let token ← bump
    if !forConstructor then
      report (.parameterKeywordOutsideConstructor token.lexeme) token.span
    return if token.kind == .varKw then .var else .val
  else return .plain

def parameter (grammar : Grammar) (forConstructor : Bool) : Parser Parameter := do
  let kind ← parameterKind forConstructor
  let name ← expect .id
  discard (expect .colon)
  let type ← grammar.type
  return ⟨kind, name.lexeme, type, name.span⟩

def parameterList (grammar : Grammar) (forConstructor : Bool) :
    Parser (List Parameter × Bool) := do
  discard (expect .openRound)
  let parameters ←
    if (← looksAt .closeRound) || (← looksAt .dotDotDot) then pure []
    else separated (parameter grammar forConstructor)
  let isVararg ← eat .dotDotDot
  discard (expect .closeRound)
  if parameters.isEmpty && isVararg then reportHere .emptyVarargs
  return (parameters, isVararg)

def optionalParameters (grammar : Grammar) : Parser (List Parameter) := do
  if ← looksAt .openRound then return (← parameterList grammar true).1 else return []

def functionStatement (grammar : Grammar) (statement : Reader Stmt) : Parser Stmt := do
  let token ← bump
  let name ← expectName
  let (parameters, isVararg) ← parameterList grammar false
  let returnType ← if ← eat .arrow then some <$> grammar.type else pure none
  expectEndOfLine
  let body ← indented statement
  closeWith .funKw
  newStmt (.functionDecl ⟨name.lexeme, parameters, isVararg, returnType⟩ body) token.span

def classMember (grammar : Grammar) (statement : Reader Stmt) : Reader Stmt := do
  let span := (← peek).span
  recovered span do
    match ← kind with
    | .valKw => variableStatement grammar
    | .varKw => variableStatement grammar
    | .funKw => functionStatement grammar statement
    | _ => failHere fun token => .notAllowedInClass token.lexeme

def typeParameters : Parser (List String) := do
  if ← eat .lt then
    let names ← separated (expect .id)
    expectGreater
    return names.map Token.lexeme
  else return []

def classStatement (grammar : Grammar) (statement : Reader Stmt) : Parser Stmt := do
  let token ← bump
  let name ← expect .id
  let typeParameters ← typeParameters
  let parameters ← optionalParameters grammar
  expectEndOfLine
  let body ← if ← looksAt .indent then indented (classMember grammar statement) else pure []
  closeWith .classKw
  newStmt (.classDecl ⟨name.lexeme, typeParameters, parameters⟩ body) token.span

def enumValue (grammar : Grammar) : Parser EnumValue := do
  let name ← expect .id
  let arguments ←
    if ← looksAt .openRound then delimited .openRound .closeRound grammar.expression else pure []
  return ⟨name.lexeme, arguments, name.span⟩

def enumStatement (grammar : Grammar) : Parser Stmt := do
  let token ← bump
  let name ← expect .id
  let parameters ← optionalParameters grammar
  let values ← delimited .openSquare .closeSquare (enumValue grammar)
  expectEndOfLine
  newStmt (.enumDecl ⟨name.lexeme, parameters, values⟩) token.span

def assignOperator : TokenKind → Option AssignOp
  | .eq => some .assign
  | .plusEq => some .add
  | .minusEq => some .subtract
  | _ => none

def expressionStatement (grammar : Grammar) : Parser Stmt := do
  let span := (← peek).span
  let target ← suffixed grammar
  match assignOperator (← kind) with
  | none =>
    expectEndOfLine
    newStmt (.expression target) span
  | some operator =>
    let token ← bump
    let value ← grammar.expression
    expectEndOfLine
    newStmt (.assign operator target value) token.span

def thenOrBlock (statement : Reader Stmt) : Parser (List Stmt) := do
  if ← eat .thenKw then return [← statement]
  else if ← eat .eol then indented statement
  else failHere fun _ => .expectedThenOrEndOfLine

def conditionClauses (grammar : Grammar) (statement : Reader Stmt) : Nat → Parser (List IfClause)
  | 0 => return []
  | bound + 1 => do
    let token ← bump
    let condition ← grammar.expression
    let body ← thenOrBlock statement
    let clause := IfClause.mk (some condition) body token.span
    if ← looksAt .elsifKw then return clause :: (← conditionClauses grammar statement bound)
    else return [clause]

def elseClause (statement : Reader Stmt) : Reader (List IfClause) := do
  if ← looksAt .elseKw then
    let token ← bump
    let body ← if ← eat .eol then indented statement else do pure [← statement]
    return [.mk none body token.span]
  else return []

def ifStatement (grammar : Grammar) (statement : Reader Stmt) : Parser Stmt := do
  let span := (← peek).span
  let clauses ← conditionClauses grammar statement ((← get).remaining + 1)
  let last ← elseClause statement
  closeWith .ifKw
  newStmt (.ifChain (clauses ++ last)) span

def whileStatement (grammar : Grammar) (statement : Reader Stmt) : Parser Stmt := do
  let token ← bump
  let condition ← grammar.expression
  let body ← thenOrBlock statement
  closeWith .whileKw
  newStmt (.whileLoop condition body) token.span

def repeatStatement (grammar : Grammar) (statement : Reader Stmt) : Parser Stmt := do
  let token ← bump
  expectEndOfLine
  let body ← indented statement
  discard (expect .untilKw)
  let condition ← grammar.expression
  expectEndOfLine
  newStmt (.repeatLoop body condition) token.span

def forStatement (grammar : Grammar) (statement : Reader Stmt) : Parser Stmt := do
  let token ← bump
  let name ← expect .id
  discard (expect .inKw)
  let iterable ← grammar.expression
  let body ← thenOrBlock statement
  closeWith .forKw
  newStmt (.forLoop name.lexeme iterable body) token.span

def whenClause (grammar : Grammar) (statement : Reader Stmt) : Parser WhenClause := do
  let span := (← peek).span
  let values ← if ← eat .elseKw then pure [] else separated grammar.expression
  discard (expect .arrow)
  if ← looksAt .eol then
    expectEndOfLine
    return .mk values (← indented statement) span
  else return .mk values [← statement] span

def whenClauses (grammar : Grammar) (statement : Reader Stmt) : Nat → Parser (List WhenClause)
  | 0 => return []
  | bound + 1 => do
    if (← looksAt .dedent) || (← looksAt .eof) then return []
    else
      let first ← whenClause grammar statement
      return first :: (← whenClauses grammar statement bound)

def whenStatement (grammar : Grammar) (statement : Reader Stmt) : Parser Stmt := do
  let token ← bump
  let subject ← grammar.expression
  expectEndOfLine
  let clauses ←
    if ← eat .indent then
      let clauses ← whenClauses grammar statement ((← get).remaining + 1)
      discard (expect .dedent)
      pure clauses
    else
      reportHere .missingWhenBlock
      pure []
  closeWith .whenKw
  newStmt (.whenCases subject clauses) token.span

def printStatement (grammar : Grammar) : Parser Stmt := do
  let token ← bump
  let arguments ← delimited .openRound .closeRound grammar.expression
  expectEndOfLine
  newStmt (.print arguments) token.span

def freeStatement (grammar : Grammar) : Parser Stmt := do
  let token ← bump
  let expression ← grammar.expression
  expectEndOfLine
  newStmt (.free expression) token.span

def statementRule (grammar : Grammar) (statement : Reader Stmt) : Reader Stmt := do
  let span := (← peek).span
  recovered span do
    match ← kind with
    | .valKw => variableStatement grammar
    | .varKw => variableStatement grammar
    | .constKw => constStatement grammar
    | .funKw => functionStatement grammar statement
    | .classKw => classStatement grammar statement
    | .enumKw => enumStatement grammar
    | .ifKw => ifStatement grammar statement
    | .whileKw => whileStatement grammar statement
    | .repeatKw => repeatStatement grammar statement
    | .forKw => forStatement grammar statement
    | .whenKw => whenStatement grammar statement
    | .printKw => printStatement grammar
    | .freeKw => freeStatement grammar
    | _ => expressionStatement grammar

def statement (grammar : Grammar) : Nat → Reader Stmt
  | 0 => do
    let span := (← peek).span
    skipLine
    newStmt .missing span
  | depth + 1 => statementRule grammar (statement grammar depth)

def untilEndOfFile (statement : Reader Stmt) : Nat → Reader (List Stmt)
  | 0 => return []
  | bound + 1 => do
    if ← looksAt .eof then return []
    else
      let first ← statement
      return first :: (← untilEndOfFile statement bound)

def statements (tokens : List Token) : List Stmt × TokenStream :=
  let stream := TokenStream.ofTokens tokens
  let depth := stream.rest.length + 1
  (untilEndOfFile (statement (grammar depth) depth) depth).run stream

end FplCompiler.Syntax

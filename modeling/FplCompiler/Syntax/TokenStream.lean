import FplCompiler.Token.Scanner

/-! Reading a list of tokens from left to right. Failure leaves the place that was reached. -/

namespace FplCompiler.Syntax

/-- Where reading stands. The last token is never stepped over. When the first half of a `>>` has closed a list of
type arguments, the second half still waits as a `>` before the current token. -/
structure TokenStream where
  current : Token
  rest : List Token
  pendingGreater : Option Span
  diagnostics : List Diagnostic
  recoveries : List Cause
  expressionCount : Nat
  statementCount : Nat

abbrev Reader := StateM TokenStream

abbrev Parser := ExceptT Diagnostic Reader

namespace TokenStream

def ofTokens (tokens : List Token) : TokenStream :=
  let place := (tokens.getLast?.map Token.span).getD Span.nowhere
  let stop : Token := ⟨.eof, TokenKind.eof.text, place⟩
  let tokens := if tokens.getLast?.map Token.kind = some .eof then tokens else tokens ++ [stop]
  ⟨tokens.headD stop, tokens.tail, none, [], [], 0, 0⟩

def kind (stream : TokenStream) : TokenKind :=
  if stream.pendingGreater.isSome then .gt else stream.current.kind

def remaining (stream : TokenStream) : Nat :=
  stream.rest.length + (if stream.pendingGreater.isSome then 1 else 0)

def bump (stream : TokenStream) : Token × TokenStream :=
  match stream.pendingGreater with
  | some span => (⟨.gt, ">", span⟩, { stream with pendingGreater := none })
  | none =>
    match stream.rest with
    | [] => (stream.current, stream)
    | next :: rest => (stream.current, { stream with current := next, rest })

def dropLine (current : Token) : List Token → Token × List Token
  | [] => (current, [])
  | next :: rest =>
    if current.kind = .eol || current.kind = .eof then (current, next :: rest)
    else dropLine next rest

def skipLine (stream : TokenStream) : TokenStream :=
  let (current, rest) := dropLine stream.current stream.rest
  { stream with current, rest, pendingGreater := none }.bump.2

end TokenStream

def peek : Reader Token := do
  return (← get).current

def kind : Reader TokenKind := do
  return (← get).kind

def looksAt (expected : TokenKind) : Reader Bool := do
  return (← kind) == expected

def bump : Reader Token :=
  modifyGet TokenStream.bump

def eat (expected : TokenKind) : Reader Bool := do
  if ← looksAt expected then
    discard bump
    return true
  else return false

def report (cause : Cause) (span : Span) : Reader Unit :=
  modify fun stream => { stream with diagnostics := stream.diagnostics ++ [⟨cause, span⟩] }

def reportHere (cause : Cause) : Reader Unit := do
  report cause (← peek).span

def failHere (cause : Token → Cause) : Parser α := do
  let token ← peek
  throw ⟨cause token, token.span⟩

def expect (expected : TokenKind) : Parser Token := do
  if ← looksAt expected then bump
  else failHere fun token => .unexpectedToken token.lexeme expected.text

/-- A name; `free` can be one too, so that classes may have a method of that name. -/
def expectName : Parser Token := do
  if ← looksAt .freeKw then
    let token ← bump
    return { token with kind := .id }
  else expect .id

def expectGreater : Parser Unit := do
  let stream ← get
  if stream.pendingGreater.isSome then set { stream with pendingGreater := none }
  else if ← looksAt .right then
    let token ← bump
    modify fun stream => { stream with pendingGreater := some token.span }
  else discard (expect .gt)

def skipLine : Reader Unit :=
  modify TokenStream.skipLine

def expectEndOfLine : Reader Unit := do
  if !(← looksAt .eol) then
    let token ← peek
    report (.expectedEndOfLine token.lexeme) token.span
  skipLine

def closeWith (closed : TokenKind) : Reader Unit := do
  if ← looksAt .endKw then
    let stop ← bump
    let closing ← bump
    if closing.kind != .eol then
      if closing.kind != closed then report (.mismatchedEnd closing.lexeme closed.text) stop.span
      expectEndOfLine

def afterCommas (item : Parser α) : Nat → Parser (List α)
  | 0 => return []
  | bound + 1 => do
    if ← eat .comma then
      let first ← item
      return first :: (← afterCommas item bound)
    else return []

def separated (item : Parser α) : Parser (List α) := do
  let first ← item
  return first :: (← afterCommas item ((← get).remaining + 1))

def delimited (opening closing : TokenKind) (item : Parser α) : Parser (List α) := do
  discard (expect opening)
  let items ← if ← looksAt closing then pure [] else separated item
  discard (expect closing)
  return items

end FplCompiler.Syntax

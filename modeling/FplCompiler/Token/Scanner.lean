import FplCompiler.Diagnostic.Report
import FplCompiler.Text.Letter
import FplCompiler.Token.Kind

/-! The tokens of a source text. Line ends and leading blanks give tokens of their own: a line end, a deeper
indentation, and one token for each indentation that is left again. -/

namespace FplCompiler

/-- A token with the text it stands for: the source text itself, but for quoted literals (their contents) and
layout (the spelling of the kind). -/
structure Token where
  kind : TokenKind
  lexeme : String
  span : Span
  deriving DecidableEq, Repr

instance : Inhabited Token :=
  ⟨⟨.eof, TokenKind.eof.text, Span.nowhere⟩⟩

structure Cursor where
  rest : List Char
  offset : Nat
  column : Nat

namespace Cursor

def ofText (text : String) : Cursor :=
  ⟨text.toList, 0, 1⟩

def columnAfter (column : Nat) (character : Char) : Nat :=
  if character = '\n' then 1 else column + 1

def advance (cursor : Cursor) (characters : List Char) : Cursor where
  rest := cursor.rest.drop characters.length
  offset := cursor.offset + byteCount characters
  column := characters.foldl columnAfter cursor.column

end Cursor

mutual

def blanks (joinLines : Bool) : List Char → List Char
  | [] => []
  | character :: rest =>
    if character = ' ' || character = '\t' || character = '\r' then
      character :: blanks joinLines rest
    else if character = '#' then character :: comment joinLines rest
    else if character = '\n' && joinLines then character :: blanks joinLines rest
    else []

def comment (joinLines : Bool) : List Char → List Char
  | [] => []
  | character :: rest =>
    if character = '\n' then
      if joinLines then character :: blanks joinLines rest else []
    else character :: comment joinLines rest

end

def isWordCharacter (character : Char) : Bool :=
  Text.isLetterOrNumber character || character == '_'

def numberText (characters : List Char) : List Char :=
  let whole := characters.takeWhile Text.isLetterOrNumber
  match characters.dropWhile Text.isLetterOrNumber with
  | '.' :: next :: rest =>
    if Text.isLetterOrNumber next then
      whole ++ '.' :: (next :: rest).takeWhile Text.isLetterOrNumber
    else whole
  | _ => whole

def escaped : Char → Char
  | 'n' => '\n'
  | 't' => '\t'
  | 'r' => '\r'
  | other => other

/-- The contents of a literal after its opening quote. A backslash at the very end stands for a line end. -/
structure QuotedText where
  contents : List Char
  source : List Char
  closed : Bool

def QuotedText.prepend (content : Char) (source : List Char) (text : QuotedText) : QuotedText :=
  ⟨content :: text.contents, source ++ text.source, text.closed⟩

def quotedText (quote : Char) : List Char → QuotedText
  | [] => ⟨[], [], false⟩
  | ['\\'] => ⟨['\n'], ['\\'], false⟩
  | character :: next :: rest =>
    if character = quote then ⟨[], [character], true⟩
    else if character = '\\' then (quotedText quote rest).prepend (escaped next) [character, next]
    else (quotedText quote (next :: rest)).prepend character [character]
  | [character] =>
    if character = quote then ⟨[], [character], true⟩ else ⟨[character], [character], false⟩

def isPair : Char → Char → Bool
  | '<', '=' | '>', '=' | '!', '=' | '<', '<' | '>', '>' | '-', '>' | '.', '.' | '?', '.'
  | '!', '!' | '+', '=' | '-', '=' | '?', ':' => true
  | _, _ => false

def punctuationText : List Char → List Char
  | '.' :: '.' :: '.' :: _ => ['.', '.', '.']
  | first :: second :: _ => if isPair first second then [first, second] else [first]
  | short => short

/-- One token's worth of text: the characters it covers, what it is, and what is wrong with it. -/
structure Scanned where
  source : List Char
  kind : TokenKind
  lexeme : String
  problem : Option Cause

def Scanned.layout (kind : TokenKind) (source : List Char) : Scanned :=
  ⟨source, kind, kind.text, none⟩

def Scanned.literal (kind : TokenKind) (unterminated : Cause) (quote : Char)
    (text : QuotedText) : Scanned :=
  ⟨quote :: text.source, kind, String.ofList text.contents,
    if text.closed then none else some unterminated⟩

def scanText : List Char → Scanned
  | [] => .layout .eol []
  | first :: rest =>
    if first = '\n' then .layout .eol [first]
    else if Text.isLetter first || first == '_' then
      let word := (first :: rest).takeWhile isWordCharacter
      let lexeme := String.ofList word
      ⟨word, (TokenKind.ofKeyword? lexeme).getD .id, lexeme, none⟩
    else if first.isDigit then
      let number := numberText (first :: rest)
      ⟨number, if number.contains '.' then .realLit else .intLit, String.ofList number, none⟩
    else if first = '"' then .literal .stringLit .unterminatedString first (quotedText first rest)
    else if first = '\'' then
      .literal .charLit .unterminatedCharacter first (quotedText first rest)
    else
      let text := punctuationText (first :: rest)
      let lexeme := String.ofList text
      match TokenKind.ofPunctuation? lexeme with
      | some kind => ⟨text, kind, lexeme, none⟩
      | none => ⟨text, .error, lexeme, some (.invalidToken lexeme)⟩

/-- The state between two tokens. The innermost indentation is first; the outermost, column 1, is not listed. -/
structure Scanner where
  cursor : Cursor
  joinLines : Bool
  lineStart : Bool
  indents : List Nat

namespace Scanner

def ofText (text : String) : Scanner :=
  ⟨Cursor.ofText text, true, true, []⟩

def indentation (indents : List Nat) : Nat :=
  indents.headD 1

/-- What stands at the cursor, with the indentations after it. Only a line start has an indentation. -/
def classify (lineStart : Bool) (indents : List Nat) (cursor : Cursor) : Scanned × List Nat :=
  if cursor.rest.isEmpty then
    if !lineStart then (.layout .eol [], indents)
    else
      match indents with
      | [] => (.layout .eof [], [])
      | _ :: outer => (.layout .dedent [], outer)
  else if lineStart && cursor.column > indentation indents then
    (.layout .indent [], cursor.column :: indents)
  else if lineStart && cursor.column < indentation indents then
    let outer := indents.tail
    if cursor.column > indentation outer then
      ({ Scanned.layout .dedent [] with
          problem := some (.indentation cursor.column (indentation outer)) },
        cursor.column :: outer)
    else (.layout .dedent [], outer)
  else (scanText cursor.rest, indents)

def next (scanner : Scanner) (file : FileId) : Token × Option Diagnostic × Scanner :=
  let start := scanner.cursor.advance (blanks scanner.joinLines scanner.cursor.rest)
  let (scanned, indents) := classify scanner.lineStart scanner.indents start
  let stop := start.advance scanned.source
  let span : Span := ⟨start.offset, stop.offset, file⟩
  (⟨scanned.kind, scanned.lexeme, span⟩,
    scanned.problem.map fun cause => ⟨cause, span⟩,
    { cursor := stop
      joinLines := scanned.kind.lineContinues
      lineStart := scanned.kind == .eol || scanned.kind == .dedent
      indents })

end Scanner

structure Scan where
  tokens : List Token
  diagnostics : List Diagnostic

def scanFrom (file : FileId) : Nat → Scanner → Scan
  | 0, _ => ⟨[], []⟩
  | bound + 1, scanner =>
    let (token, problem, scanner) := scanner.next file
    if token.kind = .eof then ⟨[token], problem.toList⟩
    else
      let rest := scanFrom file bound scanner
      ⟨token :: rest.tokens, problem.toList ++ rest.diagnostics⟩

def scan (file : FileId) (text : String) : Scan :=
  scanFrom file (4 * text.length + 4) (Scanner.ofText text)

end FplCompiler

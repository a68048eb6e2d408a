/-! The kinds of tokens: literals, punctuation, keywords and layout. -/

namespace FplCompiler

inductive TokenKind where
  | id | intLit | realLit | stringLit | charLit
  | openRound | closeRound | openSquare | closeSquare | openCurly | closeCurly
  | plus | minus | star | slash | percent | left | right | amp | bar | caret
  | lt | gt | lte | gte | eq | neq
  | dot | dotDot | dotDotDot | arrow | comma | colon | question | bang | plusEq | minusEq
  | andKw | orKw | notKw | valKw | varKw | constKw | funKw | classKw | enumKw
  | ifKw | thenKw | elsifKw | elseKw | endKw | whileKw | repeatKw | untilKw | forKw | inKw | whenKw
  | printKw | returnKw | breakKw | continueKw | newKw | localKw | freeKw | asKw | isKw
  | arrayKw | fixedArrayKw | rangeKw
  | eol | indent | dedent | eof | error
  deriving DecidableEq, Repr, Inhabited

namespace TokenKind

def text : TokenKind → String
  | id => "<identifier>"
  | intLit => "<int literal>"
  | realLit => "<real literal>"
  | stringLit => "<string literal>"
  | charLit => "<char literal>"
  | openRound => "("
  | closeRound => ")"
  | openSquare => "["
  | closeSquare => "]"
  | openCurly => "\x7b"
  | closeCurly => "\x7d"
  | plus => "+"
  | minus => "-"
  | star => "*"
  | slash => "/"
  | percent => "%"
  | left => "<<"
  | right => ">>"
  | amp => "&"
  | bar => "|"
  | caret => "^"
  | lt => "<"
  | gt => ">"
  | lte => "<="
  | gte => ">="
  | eq => "="
  | neq => "!="
  | dot => "."
  | dotDot => ".."
  | dotDotDot => "..."
  | arrow => "->"
  | comma => ","
  | colon => ":"
  | question => "?"
  | bang => "!"
  | plusEq => "+="
  | minusEq => "-="
  | andKw => "and"
  | orKw => "or"
  | notKw => "not"
  | valKw => "val"
  | varKw => "var"
  | constKw => "const"
  | funKw => "fun"
  | classKw => "class"
  | enumKw => "enum"
  | ifKw => "if"
  | thenKw => "then"
  | elsifKw => "elsif"
  | elseKw => "else"
  | endKw => "end"
  | whileKw => "while"
  | repeatKw => "repeat"
  | untilKw => "until"
  | forKw => "for"
  | inKw => "in"
  | whenKw => "when"
  | printKw => "print"
  | returnKw => "return"
  | breakKw => "break"
  | continueKw => "continue"
  | newKw => "new"
  | localKw => "local"
  | freeKw => "free"
  | asKw => "as"
  | isKw => "is"
  | arrayKw => "Array"
  | fixedArrayKw => "FixedArray"
  | rangeKw => "Range"
  | eol => "<end of line>"
  | indent => "<indent>"
  | dedent => "<dedent>"
  | eof => "<end of file>"
  | error => "<error>"

def name : TokenKind → String
  | id => "ID"
  | intLit => "INTLIT"
  | realLit => "REALLIT"
  | stringLit => "STRINGLIT"
  | charLit => "CHARLIT"
  | openRound => "OPENB"
  | closeRound => "CLOSEB"
  | openSquare => "OPENSQ"
  | closeSquare => "CLOSESQ"
  | openCurly => "OPENCL"
  | closeCurly => "CLOSECL"
  | plus => "PLUS"
  | minus => "MINUS"
  | star => "STAR"
  | slash => "SLASH"
  | percent => "PERCENT"
  | left => "LEFT"
  | right => "RIGHT"
  | amp => "AMP"
  | bar => "BAR"
  | caret => "CARET"
  | lt => "LT"
  | gt => "GT"
  | lte => "LTE"
  | gte => "GTE"
  | eq => "EQ"
  | neq => "NEQ"
  | dot => "DOT"
  | dotDot => "DOTDOT"
  | dotDotDot => "DOTDOTDOT"
  | arrow => "ARROW"
  | comma => "COMMA"
  | colon => "COLON"
  | question => "QMARK"
  | bang => "BANG"
  | plusEq => "PLUSEQ"
  | minusEq => "MINUSEQ"
  | andKw => "AND"
  | orKw => "OR"
  | notKw => "NOT"
  | valKw => "VAL"
  | varKw => "VAR"
  | constKw => "CONST"
  | funKw => "FUN"
  | classKw => "CLASS"
  | enumKw => "ENUM"
  | ifKw => "IF"
  | thenKw => "THEN"
  | elsifKw => "ELSIF"
  | elseKw => "ELSE"
  | endKw => "END"
  | whileKw => "WHILE"
  | repeatKw => "REPEAT"
  | untilKw => "UNTIL"
  | forKw => "FOR"
  | inKw => "IN"
  | whenKw => "WHEN"
  | printKw => "PRINT"
  | returnKw => "RETURN"
  | breakKw => "BREAK"
  | continueKw => "CONTINUE"
  | newKw => "NEW"
  | localKw => "LOCAL"
  | freeKw => "FREE"
  | asKw => "AS"
  | isKw => "IS"
  | arrayKw => "ARRAY"
  | fixedArrayKw => "FIXEDARRAY"
  | rangeKw => "RANGE"
  | eol => "EOL"
  | indent => "INDENT"
  | dedent => "DEDENT"
  | eof => "EOF"
  | error => "ERROR"

def keywords : List TokenKind :=
  [andKw, orKw, notKw, valKw, varKw, constKw, funKw, classKw, enumKw, ifKw, thenKw, elsifKw, elseKw,
    endKw, whileKw, repeatKw, untilKw, forKw, inKw, whenKw, printKw, returnKw, breakKw, continueKw,
    newKw, localKw, freeKw, asKw, isKw, arrayKw, fixedArrayKw, rangeKw]

def punctuation : List TokenKind :=
  [openRound, closeRound, openSquare, closeSquare, openCurly, closeCurly, plus, minus, star, slash,
    percent, left, right, amp, bar, caret, lt, gt, lte, gte, eq, neq, dot, dotDot, dotDotDot,
    arrow, comma, colon, question, bang, plusEq, minusEq]

def ofKeyword? (word : String) : Option TokenKind :=
  keywords.find? fun kind => kind.text == word

def ofPunctuation? (word : String) : Option TokenKind :=
  punctuation.find? fun kind => kind.text == word

def lineContinues : TokenKind → Bool
  | eol | indent | dedent | openRound | openSquare | openCurly | plus | minus | star | slash
  | percent | left | right | amp | bar | caret | lt | lte | gte | eq | neq | dot | dotDot | comma
  | colon | plusEq | minusEq | andKw | orKw | notKw | asKw | isKw => true
  | _ => false

end TokenKind

end FplCompiler

/-! JSON values and their text, indented by two blanks. -/

namespace FplCompiler

mutual

inductive JsonValue where
  | string (value : String)
  | number (value : Nat)
  | bool (value : Bool)
  | list (elements : List JsonValue)
  | object (members : List JsonMember)

inductive JsonMember where
  | mk (key : String) (value : JsonValue)

end

namespace JsonValue

def codeDigits (character : Char) : String :=
  let digits := String.ofList (Nat.toDigits 16 character.toNat)
  String.ofList (List.replicate (4 - digits.length) '0') ++ digits

def quotedChar (character : Char) : String :=
  match character with
  | '"' => "\\\""
  | '\\' => "\\\\"
  | '\n' => "\\n"
  | '\r' => "\\r"
  | '\t' => "\\t"
  | '\x08' => "\\b"
  | '\x0c' => "\\f"
  | _ => if character.toNat < 32 then "\\u" ++ codeDigits character else character.toString

def quoted (text : String) : String :=
  "\"" ++ String.join (text.toList.map quotedChar) ++ "\""

def indent (depth : Nat) : String :=
  "\n" ++ String.ofList (List.replicate (2 * depth) ' ')

def bracketed (left right : String) (depth : Nat) (items : List String) : String :=
  if items.isEmpty then left ++ right
  else left ++ ",".intercalate (items.map (indent (depth + 1) ++ ·)) ++ indent depth ++ right

mutual

def textAt (depth : Nat) : JsonValue → String
  | .string value => quoted value
  | .number value => toString value
  | .bool value => toString value
  | .list elements => bracketed "[" "]" depth (elementTexts (depth + 1) elements)
  | .object members => bracketed "\x7b" "\x7d" depth (memberTexts (depth + 1) members)

def elementTexts (depth : Nat) : List JsonValue → List String
  | [] => []
  | element :: rest => textAt depth element :: elementTexts depth rest

def memberTexts (depth : Nat) : List JsonMember → List String
  | [] => []
  | .mk key value :: rest => (quoted key ++ ": " ++ textAt depth value) :: memberTexts depth rest

end

def text (value : JsonValue) : String :=
  value.textAt 0

end JsonValue

end FplCompiler

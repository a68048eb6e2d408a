import FplCompiler.Analysis.Coercion

/-! Elements of sequences, members of objects and values of enums. -/

namespace FplCompiler.Analysis

open Check

def indexedType? : Ty → Option Ty
  | .array element | .inlineArray element _ => some element
  | .string => some .char
  | _ => none

def indexNode (span : Span) (array index : Typed.Expr) : Check Typed.Expr := do
  let index ← coerce .int index
  match array.type, indexedType? array.type with
  | .error, _ => silentError "invalid index" span
  | _, some element => node (.index array index) span element
  | type, none => errorNode (.notIndexable type.text) span

def enumValue? (enumName name : String) (span : Span) : Check (Option Typed.Expr) := do
  match ← lookup enumName with
  | none => return none
  | some id =>
    let symbol ← getSymbol id
    match symbol.kind, symbol.type with
    | .typeName, .enumeration enum =>
      match (← get).foundEnums.find? (·.ref = enum) with
      | none => return none
      | some found =>
        match (← get).scopes.lookupIn found.scope name with
        | some value =>
          match (← getSymbol value).kind with
          | .constant (.int value type) => return some (← node (.int value) span type)
          | _ => return some (← errorNode (.noSuchEnumValue enumName name) span)
        | none => return some (← errorNode (.noSuchEnumValue enumName name) span)
    | _, _ => return none

def accessError? (object : Typed.Expr) (name : String) (span : Span) : Check (Option Typed.Expr) := do
  match object.type with
  | .error => return some (← silentError ("no member " ++ name) span)
  | .null => return some (← errorNode (.nullFieldAccess name) span)
  | .nullable _ => return some (← errorNode (.maybeNullAccess name) span)
  | .errorUnion _ => return some (← errorNode (.maybeErrorAccess name) span)
  | _ => return none

def classMember? (cls : ClassRef) (name : String) : Check (Option (SymbolId × Symbol)) := do
  match (← getClass cls.id).members.lookup name with
  | some id => return some (id, ← getSymbol id)
  | none => return none

def memberNode (object : Typed.Expr) (name : String) (span : Span) : Check Typed.Expr := do
  let missing := errorNode (.noSuchField object.type.text name) span
  match object.type with
  | .object cls _ =>
    match ← classMember? cls name with
    | some (id, symbol) =>
      match symbol.kind with
      | .field _ _ | .inlineField _ _ =>
        node (.member object id) span (symbol.type.substitute object.type.bindings)
      | .function _ => errorNode (.methodNotCalled name) span
      | _ => missing
    | none => missing
  | .array _ | .string =>
    if name = "size" then node (.member object (← get).sizeSymbol) span .int else missing
  | .inlineArray _ count =>
    if name = "size" then node (.int (Int32.ofNat count)) span .int else missing
  | .enumeration enum =>
    let columns := (← getEnum enum.id).columns
    match columns.findIdx? (·.name == name) with
    | some column =>
      node (.enumData object enum.id column) span ((columns[column]?).getD default).type
    | none => missing
  | _ => missing

def checkMember (object : Typed.Expr) (name : String) (span : Span) : Check Typed.Expr := do
  match ← accessError? object name span with
  | some error => return error
  | none => memberNode object name span

end FplCompiler.Analysis

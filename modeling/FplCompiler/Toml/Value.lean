import FplCompiler.Number.Real

/-! Values of TOML documents, and the tables that they are put into. -/

namespace FplCompiler.Toml

inductive TableKind where
  | defined
  | implied
  | dotted
  | inline
  deriving DecidableEq, Repr

mutual

inductive Value where
  | string (value : String)
  | integer (value : Int)
  | float (value : Double)
  | boolean (value : Bool)
  | datetime
  | array (elements : List Value)
  | table (kind : TableKind) (entries : List Entry)
  | tables (elements : List (List Entry))

inductive Entry where
  | mk (key : String) (value : Value)

end

abbrev Entries := List Entry

namespace Entries

def get? (key : String) : Entries → Option Value
  | [] => none
  | .mk other value :: rest => if other = key then some value else get? key rest

def put (key : String) (value : Value) : Entries → Entries
  | [] => [.mk key value]
  | .mk other old :: rest =>
    if other = key then .mk key value :: rest else .mk other old :: put key value rest

/-- Changes the table at the end of a path. Tables that the path needs are made, values and complete tables end it, and
of several tables with one header it goes into the last. Dotted keys do not go into tables with a header. -/
def change (dotted : Bool) (step : TableKind → Entries → Option Entries) :
    List String → TableKind → Entries → Option Entries
  | [], kind, entries => step kind entries
  | key :: rest, _, entries =>
    match get? key entries with
    | none => do
      let kind : TableKind := if dotted then .dotted else .implied
      let inner ← change dotted step rest kind []
      return put key (.table kind inner) entries
    | some (.table kind inner) => do
      if kind = .inline || (dotted && kind = .defined) then none
      let inner ← change dotted step rest kind inner
      return put key (.table kind inner) entries
    | some (.tables elements) => do
      let last ← change dotted step rest .defined (elements.getLast?.getD [])
      return put key (.tables (elements.dropLast ++ [last])) entries
    | some _ => none

/-- Adds a value that is new. A dotted key ends in a table of dotted keys, and a plain key does not. -/
def insert (path : List String) (key : String) (value : Value) (kind : TableKind) (entries : Entries) :
    Option Entries :=
  let step (kind : TableKind) (entries : Entries) : Option Entries :=
    if decide (kind = .dotted) = path.isEmpty || (get? key entries).isSome then none
    else some (put key value entries)
  change true step path kind entries

def openTable (path : List String) (key : String) (root : Entries) : Option Entries :=
  let step (_ : TableKind) (entries : Entries) : Option Entries :=
    match get? key entries with
    | none => some (put key (.table .defined []) entries)
    | some (.table .implied inner) => some (put key (.table .defined inner) entries)
    | some _ => none
  change false step path .defined root

def openElement (path : List String) (key : String) (root : Entries) : Option Entries :=
  let step (_ : TableKind) (entries : Entries) : Option Entries :=
    match get? key entries with
    | none => some (put key (.tables [[]]) entries)
    | some (.tables elements) => some (put key (.tables (elements ++ [[]])) entries)
    | some _ => none
  change false step path .defined root

end Entries

end FplCompiler.Toml

/-! Tables drawn with box characters. A table that is too wide is narrowed at its widest columns, and a cell that does
not fit its column is cut. -/

namespace FplCompiler.Table

def maxWidth : Nat := 100

def borderWidth (columns : Nat) : Nat :=
  (columns - 1) * 3 + 4

def total (widths : List Nat) : Nat :=
  widths.foldl (· + ·) 0

def lowerWidest (widths : List Nat) : List Nat :=
  let widest := widths.foldl max 0
  match widths.reverse.findIdx? (· == widest) with
  | none => widths
  | some fromEnd => widths.modify (widths.length - 1 - fromEnd) (· - 1)

def narrow (room : Nat) : Nat → List Nat → List Nat
  | 0, widths => widths
  | bound + 1, widths => if total widths ≤ room then widths else narrow room bound (lowerWidest widths)

def columnWidths (columns : Nat) (rows : List (List String)) : List Nat :=
  let needed := (List.range columns).map fun column =>
    rows.foldl (fun widest row => max widest (row.getD column "").length) 0
  narrow (maxWidth - borderWidth columns) (total needed) needed

def cell (text : String) (width : Nat) : String :=
  if text.length ≤ width then text ++ String.ofList (List.replicate (width - text.length) ' ')
  else if width = 0 then ""
  else String.ofList (text.toList.take (width - 1)) ++ "+"

def line (left middle right : String) (widths : List Nat) : String :=
  left ++ middle.intercalate (widths.map fun width => String.ofList (List.replicate (width + 2) '─')) ++ right ++ "\n"

def rowLine (widths : List Nat) (row : List String) : String :=
  "│ " ++ " │ ".intercalate (row.zipWith cell widths) ++ " │\n"

def render (header : List String) (rows : List (List String)) : String :=
  if rows.isEmpty then "┌──┐\n│  │\n└──┘\n"
  else
    let widths := columnWidths header.length (header :: rows)
    line "┌" "┬" "┐" widths ++ rowLine widths header ++ line "├" "┼" "┤" widths ++
      String.join (rows.map (rowLine widths)) ++ line "└" "┴" "┘" widths

end FplCompiler.Table

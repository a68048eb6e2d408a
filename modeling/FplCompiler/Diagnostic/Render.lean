import FplCompiler.Diagnostic.Report
import FplCompiler.Text.Style

/-! Diagnostics as they are shown on a terminal: the wording, the place, the line with carets under what is meant, and
what else there is to say. -/

namespace FplCompiler

def Severity.title : Severity → String
  | .info => "Info"
  | .warning => "Warning"
  | .error => "Error"
  | .hint => "Hint"

def Severity.color : Severity → Color
  | .info => .blue
  | .warning => .yellow
  | .error => .red
  | .hint => .cyan

/-- A line by its number, counted from 1, as it is shown. Nothing after the last line end is no line. -/
def SourceFile.shownLine? (file : SourceFile) (line : Nat) : Option (List Char) :=
  let lines := linesOf file.text.toList
  match lines[line - 1]? with
  | none => none
  | some shown =>
    if line < lines.length then
      some (if shown.getLast? = some '\r' then shown.dropLast else shown)
    else if shown.isEmpty then none
    else some shown

namespace Diagnostic

def excerpt (sources : SourceMap) (isColored : Bool) (diagnostic : Diagnostic) : List String :=
  let file := sources.get diagnostic.span.file
  let (line, column) := file.lineColumn diagnostic.span.start
  let bar := (Style.boldIn .blue).paint isColored (padTo 3 "|")
  match file.shownLine? line with
  | none => []
  | some shown =>
    let width := max 1 (min diagnostic.span.length (shown.length - (column - 1)))
    let carets := String.ofList (List.replicate width '^')
    [(Style.boldIn .blue).paint isColored (padTo 3 (toString line)) ++ bar ++ String.ofList shown,
      "   " ++ bar ++ String.ofList (List.replicate (column - 1) ' ') ++
        (Style.boldIn .red).paint isColored carets]

def render (sources : SourceMap) (isColored : Bool) (diagnostic : Diagnostic) : List String :=
  let cause := diagnostic.cause
  let marked := (Style.boldIn cause.severity.color).paint isColored
  let bar := (Style.boldIn .blue).paint isColored
  [marked cause.severity.title ++ "[" ++ marked cause.code ++ "]: " ++ Style.bold.paint isColored cause.message,
    "  " ++ bar "-->" ++ " " ++ Style.bold.paint isColored (sources.location diagnostic.span),
    "   " ++ bar (padTo 3 "|")] ++
    diagnostic.excerpt sources isColored ++
    (diagnostic.labels sources).map (fun (place, text) =>
      "  " ++ (Style.boldIn .yellow).paint isColored "label:" ++ " " ++ text ++ " (" ++ place ++ ")") ++
    cause.notes.map (fun note => "  " ++ (Style.boldIn .cyan).paint isColored "note:" ++ " " ++ note) ++
    [""]

end Diagnostic

end FplCompiler

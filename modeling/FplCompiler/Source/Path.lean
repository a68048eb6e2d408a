/-! File paths, compared by their parts: repeated separators and inner dots do not matter, two dots do. -/

namespace FplCompiler

structure FilePath where
  absolute : Bool
  parts : List String
  deriving DecidableEq, Repr, Inhabited

namespace FilePath

def ofString (text : String) : FilePath :=
  let absolute := text.startsWith "/"
  match text.splitOn "/" with
  | [] => ⟨absolute, []⟩
  | first :: rest =>
    let kept := rest.filter fun part => part != "" && part != "."
    if absolute || first == "" then ⟨absolute, kept⟩ else ⟨absolute, first :: kept⟩

def fileName? (path : FilePath) : Option String :=
  path.parts.getLast?.filter fun part => part != ".." && part != "."

def displayName (path : FilePath) : String :=
  path.fileName?.getD ""

def render (path : FilePath) : String :=
  (if path.absolute then "/" else "") ++ String.intercalate "/" path.parts

end FilePath

end FplCompiler

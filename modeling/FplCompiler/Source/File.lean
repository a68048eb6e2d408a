import FplCompiler.Source.Span
import FplCompiler.Source.Path

/-! Source files and the map that holds them. Lines and columns count from 1; a column counts characters. -/

namespace FplCompiler

structure SourceFile where
  path : FilePath
  name : String
  text : String
  deriving Repr, Inhabited

def byteCount (characters : List Char) : Nat :=
  characters.foldl (fun bytes character => bytes + character.utf8Size) 0

def splitAtByte? : Nat → List Char → Option (List Char × List Char)
  | 0, characters => some ([], characters)
  | _, [] => none
  | bytes, character :: characters =>
    if bytes < character.utf8Size then none
    else (splitAtByte? (bytes - character.utf8Size) characters).map fun (before, after) =>
      (character :: before, after)

def lineStartsFrom (offset : Nat) : List Char → List Nat
  | [] => []
  | character :: characters =>
    let next := offset + character.utf8Size
    if character = '\n' then next :: lineStartsFrom next characters
    else lineStartsFrom next characters

/-- The last line that starts at or before an offset, searched for from the line `low` on and before the line `high`. -/
def lineBetween (starts : Array Nat) (offset low high : Nat) (some : low < high) (inside : high ≤ starts.size) :
    Fin starts.size :=
  if several : low + 1 < high then
    let middle := (low + high) / 2
    if starts[middle] ≤ offset then lineBetween starts offset middle high (by omega) inside
    else lineBetween starts offset low middle (by omega) (by omega)
  else ⟨low, by omega⟩
termination_by high - low

/-- Bytes that are no text count one by one, as where an offset is inside a character. -/
def characterCount (bytes : ByteArray) : Nat :=
  match String.fromUTF8? bytes with
  | some text => text.length
  | none => bytes.size

def linesOf : List Char → List (List Char)
  | [] => [[]]
  | character :: characters =>
    match linesOf characters with
    | [] => [[character]]
    | line :: lines =>
      if character = '\n' then [] :: line :: lines else (character :: line) :: lines

def trimLineEnd (line : List Char) : List Char :=
  (line.reverse.dropWhile fun character => character = '\r' || character = '\n').reverse

namespace SourceFile

def ofText (path text : String) : SourceFile :=
  let path := FilePath.ofString path
  ⟨path, path.displayName, text⟩

def byteLength (file : SourceFile) : Nat :=
  file.text.utf8ByteSize

def moduleName (file : SourceFile) : String :=
  if file.name.endsWith ".fpl" then (file.name.dropEnd 4).toString else file.name

def lineStarts (file : SourceFile) : List Nat :=
  0 :: lineStartsFrom 0 file.text.toList

/-- The line of an offset, counted from 0. -/
def lineAt (file : SourceFile) (offset : Nat) : Fin file.lineStarts.toArray.size :=
  lineBetween file.lineStarts.toArray (min offset file.byteLength) 0 file.lineStarts.toArray.size (by simp [lineStarts])
    (Nat.le_refl _)

def lineColumn (file : SourceFile) (offset : Nat) : Nat × Nat :=
  let line := file.lineAt offset
  let start := file.lineStarts.toArray[line]
  (line + 1, characterCount (file.text.toUTF8.extract start (min offset file.byteLength)) + 1)

def slice? (file : SourceFile) (start stop : Nat) : Option (List Char) :=
  if start ≤ stop then
    match splitAtByte? start file.text.toList with
    | none => none
    | some (_, rest) => (splitAtByte? (stop - start) rest).map Prod.fst
  else none

def lastOffset (file : SourceFile) (start stop : Nat) : Nat :=
  match file.slice? start stop with
  | none => start
  | some characters => start + byteCount characters.dropLast

def lineText? (file : SourceFile) (line : Nat) : Option (List Char) :=
  if line = 0 then none else ((linesOf file.text.toList)[line - 1]?).map trimLineEnd

end SourceFile

structure SourceMap where
  files : Array SourceFile
  deriving Repr, Inhabited

namespace SourceMap

def empty : SourceMap :=
  ⟨#[]⟩

def find? (sources : SourceMap) (path : FilePath) : Option FileId :=
  sources.files.findIdx? fun file => file.path = path

def add (sources : SourceMap) (path text : String) : SourceMap × FileId :=
  match sources.find? (FilePath.ofString path) with
  | some file => (sources, file)
  | none => (⟨sources.files.push (SourceFile.ofText path text)⟩, sources.files.size)

def get (sources : SourceMap) (file : FileId) : SourceFile :=
  sources.files.getD file default

def lineColumn (sources : SourceMap) (file : FileId) (offset : Nat) : Nat × Nat :=
  (sources.get file).lineColumn offset

def location (sources : SourceMap) (span : Span) : String :=
  let file := sources.get span.file
  let (firstLine, firstColumn) := file.lineColumn span.start
  let (lastLine, lastColumn) := file.lineColumn (file.lastOffset span.start span.stop)
  s!"{file.name}:{firstLine}.{firstColumn}-{lastLine}.{lastColumn}"

def slice (sources : SourceMap) (span : Span) : String :=
  String.ofList (((sources.get span.file).slice? span.start span.stop).getD [])

def snippet (sources : SourceMap) (span : Span) : String :=
  let file := sources.get span.file
  let (line, column) := file.lineColumn span.start
  let number := toString line
  let padding := String.ofList (List.replicate (4 - number.length) ' ')
  let text := String.ofList ((file.lineText? line).getD [])
  let carets := String.ofList
    (List.replicate (column - 1) ' ' ++ List.replicate (max span.length 1) '^')
  s!"{padding}{number} | {text}\n     | {carets}"

end SourceMap

end FplCompiler

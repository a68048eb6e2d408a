import FplCompiler.CommandLine.Script

/-! A disk in memory, and scripts run on it. -/

namespace FplCompiler.CommandLine

abbrev Location := List String

/-- Files with their texts, and the directories that were made. The directories around a file are there with it. -/
structure Disk where
  files : List (Location × String)
  directories : List Location := []
  deriving DecidableEq, Repr

inductive Node where
  | file (text : String)
  | directory
  | missing
  deriving DecidableEq, Repr

namespace Disk

def ofFiles (files : List (String × String)) : Disk where
  files := files.map fun (path, text) => ((pathParts path).filter (!isInPlace ·), text)

def isDirectory (disk : Disk) (location : Location) : Bool :=
  location.all (· == "..") ||
    disk.directories.any (location.isPrefixOf ·) ||
    disk.files.any fun (place, _) => location.length < place.length && location.isPrefixOf place

def node (disk : Disk) (location : Location) : Node :=
  match disk.files.lookup location with
  | some text => .file text
  | none => if disk.isDirectory location then .directory else .missing

def above (location : Location) : Location :=
  if location.all (· == "..") then ".." :: location else location.dropLast

def maxNameBytes : Nat := 255

def maxPathBytes : Nat := 4095

def step (disk : Disk) (location : Location) (part : String) : Except DiskError Location :=
  match disk.node location with
  | .missing => .error .missing
  | .file _ => .error .notDirectory
  | .directory =>
    if maxNameBytes < part.utf8ByteSize then .error .tooLong
    else .ok (if isInPlace part then location else if part = ".." then above location else location ++ [part])

def locate (disk : Disk) (path : String) : Except DiskError Location :=
  if path = "" then .error .missing
  else if path.toList.contains '\x00' then .error .notPath
  else if maxPathBytes < path.utf8ByteSize then .error .tooLong
  else if path.startsWith "/" then .ok (".." :: "/" :: (pathParts path).filter (!isInPlace ·))
  else (pathParts path).foldlM disk.step []

def read (disk : Disk) (path : String) : Except DiskError FoundFile := do
  let location ← disk.locate path
  match disk.node location with
  | .file text => return ⟨"/".intercalate location, text⟩
  | .directory => throw .isDirectory
  | .missing => throw .missing

def makeStep : Disk × Location → String → Except DiskError (Disk × Location)
  | (disk, location), part => do
    let next ← disk.step location part
    match disk.node next with
    | .missing => return ({ disk with directories := next :: disk.directories }, next)
    | _ => return (disk, next)

def makeDirectories (disk : Disk) (path : String) : Except DiskError Disk := do
  if path.startsWith "/" then return disk
  let (made, location) ← (pathParts path).foldlM makeStep (disk, [])
  match made.node location with
  | .file _ => throw .taken
  | _ => return made

def put (disk : Disk) (location : Location) (text : String) : Disk :=
  { disk with files := (disk.files.filter (·.1 != location)) ++ [(location, text)] }

def writeInto (disk : Disk) (path text : String) : Except DiskError Disk := do
  let location ← disk.locate path
  match disk.node location with
  | .directory => throw .isDirectory
  | _ => return disk.put location text

/-- Writes a file, in directories that are made if they are missing. The disk is left as far as it was changed. -/
def write (disk : Disk) (path text : String) : Except WriteError Unit × Disk :=
  let made : Except WriteError Disk := match parentPath? path with
    | none => .ok disk
    | some parent => (disk.makeDirectories parent).mapError (WriteError.directory parent)
  match made with
  | .error error => (.error error, disk)
  | .ok made =>
    match made.writeInto path text with
    | .error error => (.error (.file error), made)
    | .ok written => (.ok (), written)

def changesSince (before after : Disk) : List (String × String) :=
  (after.files.filter fun (location, text) =>
    location.head? != some ".." && before.files.lookup location != some text).map
    fun (location, text) => ("/".intercalate location, text)

end Disk

structure Outcome (α : Type) where
  result : α
  output : String
  error : String
  disk : Disk

def Script.run {α : Type} (output error : String) (disk : Disk) : Script α → Outcome α
  | .done result => ⟨result, output, error, disk⟩
  | .read path next => (next (disk.read path)).run output error disk
  | .write path text next =>
    let (written, disk) := disk.write path text
    (next written).run output error disk
  | .print .output text next => next.run (output ++ text) error disk
  | .print .error text next => next.run output (error ++ text) disk

end FplCompiler.CommandLine

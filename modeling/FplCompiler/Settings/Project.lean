import FplCompiler.Settings.Stage
import FplCompiler.Toml.Document

/-! The project file: the sources of a project, and how they are compiled. Keys that mean nothing here are left
alone. -/

namespace FplCompiler

structure Project where
  name : String
  sources : List String
  output : Option String
  stdlib : List String
  stopAt : Option Stage
  deriving DecidableEq, Repr

namespace Project

def fileName : String := "fpl.toml"

open Toml (Value Entries)

def string? : Value → Option String
  | .string value => some value
  | _ => none

def strings? : Value → Option (List String)
  | .array elements => elements.mapM string?
  | _ => none

def isEmpty : Value → Bool
  | .array [] | .table _ [] => true
  | _ => false

def stage? : Value → Option Stage
  | .string name => Stage.ofName? name
  | .table _ [.mk name value] => if isEmpty value then Stage.ofName? name else none
  | _ => none

def optional? {α : Type} (read : Value → Option α) (key : String) (entries : Entries) : Option (Option α) :=
  match entries.get? key with
  | none => some none
  | some value => (read value).map some

structure Build where
  output : Option String := none
  stdlib : List String := []
  stopAt : Option Stage := none

/-- The settings may be a table, or a list of all the values in order. A date has no keys that mean anything. -/
def build? : Value → Option Build
  | .table _ entries => do
    let output ← optional? string? "output" entries
    let stdlib ← optional? strings? "stdlib" entries
    let stopAt ← optional? stage? "stop_at" entries
    return ⟨output, stdlib.getD [], stopAt⟩
  | .array (output :: stdlib :: stopAt :: _) => do
    return ⟨some (← string? output), ← strings? stdlib, some (← stage? stopAt)⟩
  | .datetime => some {}
  | _ => none

def ofEntries? (entries : Entries) : Option Project := do
  let name ← string? (← entries.get? "name")
  let sources ← optional? strings? "sources" entries
  let build := (← optional? build? "build" entries).getD {}
  return ⟨name, sources.getD [], build.output, build.stdlib, build.stopAt⟩

def parse? (text : String) : Option Project := do
  ofEntries? (← Toml.parse? text)

end Project

end FplCompiler

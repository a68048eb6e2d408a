import FplCompiler.CommandLine.Build

/-! The compiler as a program: scripts are run on the real disk. -/

namespace FplCompiler.CommandLine

def diskError : IO.Error → DiskError
  | .noFileOrDirectory .. | .noSuchThing .. => .missing
  | .inappropriateType _ 21 _ => .isDirectory
  | .inappropriateType .. => .notDirectory
  | .alreadyExists .. => .taken
  | .invalidArgument _ 36 _ => .tooLong
  | error => .other (toString error)

def attempt {α : Type} (action : IO α) : IO (Except DiskError α) := do
  try
    return .ok (← action)
  catch error =>
    return .error (diskError error)

def loadFile (path : String) : IO (Except DiskError FoundFile) :=
  attempt do
    let text ← IO.FS.readFile path
    let place ← IO.FS.realPath path
    return ⟨place.toString, text⟩

def storeFile (path text : String) : IO (Except WriteError Unit) := do
  let made ← match parentPath? path with
    | some parent => do
      match ← attempt (IO.FS.createDirAll parent) with
      | .ok () => pure (Except.ok ())
      | .error error => pure (Except.error (WriteError.directory parent error))
    | none => pure (Except.ok ())
  match made with
  | .error error => return .error error
  | .ok () =>
    match ← attempt (IO.FS.writeFile path text) with
    | .ok () => return .ok ()
    | .error error => return .error (.file error)

def Script.perform {α : Type} : Script α → IO α
  | .done result => return result
  | .read path next => do (next (← loadFile path)).perform
  | .write path text next => do (next (← storeFile path text)).perform
  | .print .output text next => do
    IO.print text
    next.perform
  | .print .error text next => do
    IO.eprint text
    next.perform

def showsColors : IO Bool := do
  match ← IO.getEnv "CLICOLOR_FORCE" with
  | some value => if value != "0" then return true
  | none => pure ()
  if (← IO.getEnv "NO_COLOR").isSome || (← IO.getEnv "CLICOLOR") == some "0" then return false
  (← IO.getStdout).isTty

end FplCompiler.CommandLine

open FplCompiler.CommandLine in
def main (words : List String) : IO UInt32 := do
  match Arguments.parse words with
  | .ok arguments => return UInt32.ofNat (← (command arguments (← showsColors)).perform)
  | .error .version =>
    IO.println versionText
    return 0
  | .error .help =>
    IO.print usageText
    return 0
  | .error .rejected =>
    IO.eprint usageText
    return 2

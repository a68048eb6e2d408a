/-! What a command does to its surroundings, as data: it reads and writes files and prints lines. A script can be run on
a disk in memory as well as on a real one. -/

namespace FplCompiler.CommandLine

def pathParts (path : String) : List String :=
  path.splitOn "/"

def isInPlace (part : String) : Bool :=
  part == "" || part == "."

def parentPath? (path : String) : Option String :=
  match ((pathParts path).reverse.dropWhile isInPlace).drop 1 with
  | [] => none
  | others =>
    let parent := "/".intercalate others.reverse
    if parent = "" then if path.startsWith "/" then some "/" else none else some parent

inductive DiskError where
  | missing | isDirectory | notDirectory | taken | tooLong | notPath
  | other (text : String)
  deriving DecidableEq, Repr

def DiskError.text : DiskError → String
  | missing => "No such file or directory (os error 2)"
  | isDirectory => "Is a directory (os error 21)"
  | notDirectory => "Not a directory (os error 20)"
  | taken => "File exists (os error 17)"
  | tooLong => "File name too long (os error 36)"
  | notPath => "file name contained an unexpected NUL byte"
  | other text => text

structure FoundFile where
  path : String
  text : String
  deriving DecidableEq, Repr

inductive WriteError where
  | directory (path : String) (error : DiskError)
  | file (error : DiskError)
  deriving DecidableEq, Repr

inductive Channel where
  | output | error
  deriving DecidableEq, Repr

inductive Script (α : Type) where
  | done (result : α)
  | read (path : String) (next : Except DiskError FoundFile → Script α)
  | write (path text : String) (next : Except WriteError Unit → Script α)
  | print (channel : Channel) (text : String) (next : Script α)

namespace Script

def bind {α β : Type} (first : Script α) (second : α → Script β) : Script β :=
  match first with
  | done result => second result
  | read path next => read path fun found => (next found).bind second
  | write path text next => write path text fun written => (next written).bind second
  | print channel text next => print channel text (next.bind second)

instance : Monad Script where
  pure := done
  bind := bind

def readFile (path : String) : Script (Except DiskError FoundFile) :=
  read path done

def writeFile (path text : String) : Script (Except WriteError Unit) :=
  write path text done

def printLine (channel : Channel) (text : String) : Script Unit :=
  print channel (text ++ "\n") (done ())

end Script

end FplCompiler.CommandLine

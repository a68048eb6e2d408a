import FplCompiler.Settings.Verbosity

/-! The words of a command line. They are read from left to right, and the first that is wrong or asks for help decides.
Most options may stand in front of the command or behind it; those behind it count, if there are some. -/

namespace FplCompiler.CommandLine

inductive Command where
  | build | check
  deriving DecidableEq, Repr

def Command.ofName? : String → Option Command
  | "build" => some .build
  | "check" => some .check
  | _ => none

inductive Flag where
  | dump | dumpDir | debug | debugTrace | quiet | verbose
  | output | stopAt | symbolMap
  | help | version
  deriving DecidableEq, Repr

namespace Flag

def name : Flag → String
  | dump => "dump"
  | dumpDir => "dump-dir"
  | debug => "debug"
  | debugTrace => "debug-trace"
  | quiet => "quiet"
  | verbose => "verbose"
  | output => "output"
  | stopAt => "stop-at"
  | symbolMap => "symbol-map"
  | help => "help"
  | version => "version"

def letter? : Flag → Option Char
  | quiet => some 'q'
  | verbose => some 'v'
  | output => some 'o'
  | help => some 'h'
  | version => some 'V'
  | _ => none

def takesValue : Flag → Bool
  | dump | dumpDir | debugTrace | output | stopAt | symbolMap => true
  | _ => false

def repeats : Flag → Bool
  | dump | debugTrace | verbose => true
  | _ => false

def accepts (flag : Flag) (value : String) : Bool :=
  match flag with
  | dump => (DumpKind.ofName? value).isSome
  | debugTrace => (TraceKind.ofName? value).isSome
  | stopAt => (Stage.ofName? value).isSome
  | _ => true

def global : List Flag :=
  [dump, dumpDir, debug, debugTrace, quiet, verbose, help, version]

def behind : Command → List Flag
  | .build => global ++ [output, stopAt, symbolMap]
  | .check => global ++ [symbolMap]

end Flag

inductive Refusal where
  | rejected | help | version
  deriving DecidableEq, Repr

abbrev Given := Flag × String

def valuesOf (given : List Given) (flag : Flag) : List String :=
  given.filterMap fun (other, value) => if other = flag then some value else none

/-- Adds a flag to those that were accepted. Asking for help ends the reading; a flag that is given too often is refused,
and so is a value that means nothing to its flag. -/
def accept (accepted : List Given) (given : Given) : Except Refusal (List Given) :=
  let (flag, value) := given
  match flag with
  | .help => .error .help
  | .version => .error .version
  | _ =>
    if !flag.repeats && !(valuesOf accepted flag).isEmpty then .error .rejected
    else if !flag.accepts value then .error .rejected
    else .ok (accepted ++ [given])

/-- The flags of some words: those that were accepted, and the last one as long as its value, a word of its own, was not
looked at. -/
structure Reading where
  accepted : List Given
  waiting : Option Given
  deriving DecidableEq, Repr

namespace Reading

def empty : Reading :=
  ⟨[], none⟩

def settle (reading : Reading) : Except Refusal (List Given) :=
  match reading.waiting with
  | none => .ok reading.accepted
  | some given => accept reading.accepted given

def take (reading : Reading) (given : Given) : Except Refusal Reading := do
  let accepted ← accept (← reading.settle) given
  return ⟨accepted, none⟩

def await (reading : Reading) (given : Given) : Except Refusal Reading := do
  return ⟨← reading.settle, some given⟩

end Reading

def isFlagWord (word : String) : Bool :=
  word.startsWith "-" && word != "-"

def readValue (flag : Flag) (attached : Option String) (rest : List String) (reading : Reading) :
    Except Refusal (Reading × List String) := do
  match attached, rest with
  | some value, _ => return (← reading.take (flag, value), rest)
  | none, word :: rest =>
    if isFlagWord word then throw .rejected
    return (← reading.await (flag, word), rest)
  | none, [] => throw .rejected

def readLong (flags : List Flag) (body : String) (rest : List String) (reading : Reading) :
    Except Refusal (Reading × List String) := do
  let name := String.ofList (body.toList.takeWhile (· != '='))
  let attached := match body.toList.dropWhile (· != '=') with
    | _ :: value => some (String.ofList value)
    | [] => none
  match flags.find? (·.name == name) with
  | none => throw .rejected
  | some flag =>
    if flag.takesValue then readValue flag attached rest reading
    else if attached.isSome then throw .rejected
    else return (← reading.take (flag, ""), rest)

def readLetters (flags : List Flag) : List Char → List String → Reading → Except Refusal (Reading × List String)
  | [], rest, reading => .ok (reading, rest)
  | letter :: letters, rest, reading => do
    match flags.find? (·.letter? == some letter) with
    | none => throw .rejected
    | some flag =>
      if flag.takesValue then
        let attached := match letters with
          | [] => none
          | '=' :: value => some (String.ofList value)
          | value => some (String.ofList value)
        readValue flag attached rest reading
      else
        readLetters flags letters rest (← reading.take (flag, ""))

def readFlags (flags : List Flag) (word : String) (rest : List String) (reading : Reading) :
    Except Refusal (Reading × List String) :=
  match word.toList with
  | '-' :: '-' :: body => readLong flags (String.ofList body) rest reading
  | _ => readLetters flags (word.toList.drop 1) rest reading

def explain : List String → Refusal
  | [] => .help
  | [topic] => if topic = "help" || (Command.ofName? topic).isSome then .help else .rejected
  | _ => .rejected

def readFront : Nat → Reading → List String → Except Refusal (Reading × Command × List String)
  | 0, _, _ | _, _, [] => .error .rejected
  | bound + 1, reading, word :: rest => do
    if isFlagWord word then
      let (reading, rest) ← readFlags Flag.global word rest reading
      readFront bound reading rest
    else
      match Command.ofName? word with
      | some command => return (reading, command, rest)
      | none => throw (if word = "help" then explain rest else .rejected)

def readBehind (flags : List Flag) :
    Nat → Reading → List String → Except Refusal (List Given × List String)
  | 0, reading, _ | _, reading, [] => do
    return (← reading.settle, [])
  | bound + 1, reading, word :: rest => do
    if word = "--" then
      return (← reading.settle, rest)
    else if isFlagWord word then
      let (reading, rest) ← readFlags flags word rest reading
      readBehind flags bound reading rest
    else
      let accepted ← reading.settle
      let (accepted, files) ← readBehind flags bound ⟨accepted, none⟩ rest
      return (accepted, word :: files)

structure Arguments where
  command : Command
  files : List String
  output : Option String
  stopAt : Option Stage
  symbolMap : Option String
  dumps : List DumpKind
  dumpDir : Option String
  verbosity : Verbosity
  deriving DecidableEq, Repr

/-- Understands the words of a command line. A value that waits at the command is looked at when the words behind it
were read. -/
def Arguments.parse (words : List String) : Except Refusal Arguments := do
  let (front, command, rest) ← readFront words.length .empty words
  let (behind, files) ← readBehind (Flag.behind command) rest.length .empty rest
  let front ← front.settle
  let values (flag : Flag) : List String :=
    let own := valuesOf behind flag
    if own.isEmpty then valuesOf front flag else own
  return {
    command := command
    files := files
    output := (values .output).head?
    stopAt := (values .stopAt).head?.bind Stage.ofName?
    symbolMap := (values .symbolMap).head?
    dumps := (values .dump).filterMap DumpKind.ofName?
    dumpDir := (values .dumpDir).head?
    verbosity := {
      debug := !(values .debug).isEmpty
      traces := (values .debugTrace).filterMap TraceKind.ofName?
      quiet := !(values .quiet).isEmpty
      verbose := (values .verbose).length } }

def versionText : String := "fplc 0.1.0"

def usageText : String :=
  "The FPL compiler\n\n" ++
  "Usage: fplc [OPTIONS] build [FILES]... [-o OUTPUT] [--stop-at STAGE] [--symbol-map FILE]\n" ++
  "       fplc [OPTIONS] check [FILES]... [--symbol-map FILE]\n\n" ++
  "Options:\n" ++
  "  --dump KIND          ast, tst, ir, regalloc or symbols\n" ++
  "  --dump-dir DIR       write dumps to this directory\n" ++
  "  --debug              report everything\n" ++
  "  --debug-trace PART   lexer, parser, analyzer, codegen, backend or regalloc\n" ++
  "  -q, --quiet          report errors only\n" ++
  "  -v, --verbose        report more\n" ++
  "  -h, --help           show this text\n" ++
  "  -V, --version        show the version\n"

end FplCompiler.CommandLine

import FplCompiler.CommandLine.Arguments
import FplCompiler.CommandLine.Script
import FplCompiler.Diagnostic.Render
import FplCompiler.Session.Compile
import FplCompiler.Settings.Project

/-! The commands: compiling files, or only checking them, with what the project file adds. -/

namespace FplCompiler.CommandLine

abbrev Task := ExceptT Unit Script

structure Plan where
  files : List String
  output : Option String := none
  stopAt : Stage
  dumps : List DumpKind
  dumpDir : Option String
  symbolMap : Option String
  isCheck : Bool
  verbosity : Verbosity

namespace Plan

/-- The sources of the library come first. Files on the command line replace those of the project. -/
def sourceFiles (named : List String) (project : Option Project) : List String :=
  match project with
  | none => named
  | some project => project.stdlib ++ if named.isEmpty then project.sources else named

def make (arguments : Arguments) (project : Option Project) : Plan :=
  let isCheck : Bool := arguments.command = .check
  let stopAt := (arguments.stopAt <|> project.bind Project.stopAt).getD .assembly
  { files := sourceFiles arguments.files project
    output := if isCheck then none else arguments.output <|> project.bind Project.output
    stopAt := if isCheck then .typecheck else stopAt
    dumps := arguments.dumps
    dumpDir := arguments.dumpDir
    symbolMap := arguments.symbolMap
    isCheck := isCheck
    verbosity := arguments.verbosity }

end Plan

def withExtension (path extension : String) : String :=
  let name := (FilePath.ofString path).displayName
  let stem := match name.toList.reverse.dropWhile (· != '.') with
    | _ :: stem => if stem.isEmpty then name else String.ofList stem.reverse
    | [] => name
  String.ofList (path.toList.take (path.length - name.length)) ++ stem ++ "." ++ extension

def joinPath (directory name : String) : String :=
  if directory = "" then name
  else if directory.endsWith "/" then directory ++ name
  else directory ++ "/" ++ name

def Plan.outputPath? (plan : Plan) : Option String :=
  match plan.output with
  | some path => some path
  | none => if plan.stopAt = .assembly then plan.files.head?.map (withExtension · "f32") else none

def errorLine (isColored : Bool) (message : String) : String :=
  (Style.boldIn .red).paint isColored "Error:" ++ " " ++ message

def fail {α : Type} (isColored : Bool) (message : String) : Task α := do
  Script.printLine .error (errorLine isColored message)
  throw ()

def showLog (verbosity : Verbosity) (isColored : Bool) (lines : List LogLine) : Task Unit :=
  (lines.filter (·.isShown verbosity)).forM fun line => Script.printLine .error (line.render isColored)

def save (isColored : Bool) (path text : String) : Task Unit := do
  match ← Script.writeFile path text with
  | .ok () => return ()
  | .error (.directory parent error) =>
    fail isColored s!"Failed to create directory '{parent}': {error.text}"
  | .error (.file error) => fail isColored s!"Failed to write '{path}': {error.text}"

def readProject : Script (Except String (Option Project)) := do
  match ← Script.readFile Project.fileName with
  | .error .missing => return .ok none
  | .error error => return .error s!"Failed to read '{Project.fileName}': {error.text}"
  | .ok file =>
    match Project.parse? file.text with
    | some project => return .ok (some project)
    | none => return .error s!"Invalid '{Project.fileName}': not a project"

def readSources (isColored : Bool) : List String → Session → Task Session
  | [], session => return session
  | path :: rest, session => do
    match ← Script.readFile path with
    | .error error => fail isColored s!"Failed to read file '{path}': {error.text}"
    | .ok file => readSources isColored rest (session.add file.path file.text).2

def showDiagnostics (isColored : Bool) (session : Session) : Task Unit :=
  let shown := session.diagnostics.filter fun diagnostic => diagnostic.isError || !session.verbosity.quiet
  (shown.flatMap (Diagnostic.render session.sources isColored)).forM fun line => Script.printLine .error line

def saveDump (plan : Plan) (isColored : Bool) (kind : DumpKind) (text : String) : Task Unit :=
  match plan.dumpDir with
  | some directory => save isColored (joinPath directory kind.fileName) text
  | none => Script.printLine .output ("\n" ++ text)

def finish (plan : Plan) (isColored : Bool) (output : CompileOutput) : Task Unit := do
  output.dumps.forM fun (kind, text) => saveDump plan isColored kind text
  match plan.symbolMap with
  | some path => save isColored path (SymbolEntry.renderJson output.symbols)
  | none => pure ()
  unless output.warnings.isEmpty do
    showLog plan.verbosity isColored [.caution s!"{output.warnings.length} warning(s)"]
  if plan.isCheck then showLog plan.verbosity isColored [.done "No errors found"]
  else
    match plan.outputPath? with
    | some path =>
      save isColored path output.text
      showLog plan.verbosity isColored [.done ("Wrote " ++ path)]
    | none => Script.printLine .output output.text

def countErrors (diagnostics : List Diagnostic) : String :=
  let count := (diagnostics.filter Diagnostic.isError).length
  s!"{count} error" ++ if count = 1 then "" else "s"

def compileFiles (plan : Plan) (isColored : Bool) : Task Unit := do
  let session ← readSources isColored plan.files { verbosity := plan.verbosity, dumps := plan.dumps }
  showLog plan.verbosity isColored
    [.debug s!"compiling {plan.files.length} files, stopping at {plan.stopAt.title}"]
  let (result, log, session) := session.run plan.stopAt
  showLog plan.verbosity isColored log
  showDiagnostics isColored session
  match result with
  | .ok output => finish plan isColored output
  | .error (.diagnostics _) => fail isColored ("Compilation failed with " ++ countErrors session.diagnostics)
  | .error problem => fail isColored problem.message

def runCommand (arguments : Arguments) (isColored : Bool) : Task Unit := do
  let refuse (message : String) : Task Unit := do
    Script.printLine .error (errorLine isColored message)
    Script.printLine .error "For more information, run `fplc --help`"
    throw ()
  match ← readProject with
  | .error message => refuse message
  | .ok project =>
    let plan := Plan.make arguments project
    if plan.files.isEmpty then
      refuse ("No source files provided. Name them on the command line or list them in '" ++
        Project.fileName ++ "'.")
    else compileFiles plan isColored

def command (arguments : Arguments) (isColored : Bool) : Script Nat := do
  match ← (runCommand arguments isColored).run with
  | .ok () => return 0
  | .error () => return 1

end FplCompiler.CommandLine

import FplCompiler.Assembly.Text
import FplCompiler.Codegen.Program
import FplCompiler.Session.Log
import FplCompiler.Session.SymbolMap
import FplCompiler.Syntax.Program

/-! Compiling sources, stage by stage. A run stops after the parser or the analysis if an error was found. -/

namespace FplCompiler

structure Session where
  verbosity : Verbosity := .silent
  dumps : List DumpKind := []
  sources : SourceMap := .empty
  files : List FileId := []
  diagnostics : List Diagnostic := []

/-- What a run gives: the text of its last stage, the warnings, the texts asked for on the way and the symbols. -/
structure CompileOutput where
  stage : Stage
  text : String
  warnings : List String
  dumps : List (DumpKind × String)
  symbols : List SymbolEntry

inductive CompileError where
  | diagnostics (text : String)
  | backend (error : Ir.BackendError) (function : String)

def CompileError.message : CompileError → String
  | diagnostics text => text
  | backend error function => s!"internal error in '{function}': {error.message}"

structure Progress where
  log : List LogLine := []
  diagnostics : List Diagnostic := []
  dumps : List (DumpKind × String) := []

abbrev Run := ExceptT CompileError (StateM Progress)

namespace Run

def log (lines : List LogLine) : Run Unit :=
  modify fun progress => { progress with log := progress.log ++ lines }

def report (sources : SourceMap) (found : List Diagnostic) : Run Unit := do
  modify fun progress => { progress with diagnostics := progress.diagnostics ++ found }
  let all := (← get).diagnostics
  if all.any Diagnostic.isError then throw (.diagnostics (Diagnostic.plainAll sources all))

end Run

namespace Session

def add (session : Session) (path text : String) : FileId × Session :=
  let (sources, file) := session.sources.add path text
  let files := if session.files.contains file then session.files else session.files ++ [file]
  (file, { session with sources := sources, files := files })

def dump (session : Session) (kind : DumpKind) (text : String) : Run Unit := do
  if session.dumps.contains kind then
    modify fun progress => { progress with dumps := progress.dumps ++ [(kind, text)] }

def output (session : Session) (stage : Stage) (text : String) (symbols : List SymbolEntry) : Run CompileOutput := do
  let progress ← get
  let warnings := progress.diagnostics.filter fun diagnostic => !diagnostic.isError
  return ⟨stage, text, warnings.map (Diagnostic.plain session.sources), progress.dumps, symbols⟩

def fileLog (session : Session) (parsed : Syntax.ParsedFile) : List LogLine :=
  [.debug ("parsing " ++ (session.sources.get parsed.tree.file).name)] ++
    parsed.tokens.map (fun token => .trace .lexer (token.kind.name ++ " " ++ token.lexeme)) ++
    [.trace .parser ("parsing file " ++ parsed.tree.name)] ++
    parsed.recoveries.map fun cause => .trace .parser ("recovering from: " ++ cause.message)

def parse (session : Session) : Run Syntax.Program := do
  Run.log (session.files.map fun file => .phase ("Parsing... " ++ (session.sources.get file).name))
  let parsed := Syntax.Program.ofSources session.sources session.files
  Run.log (parsed.files.flatMap session.fileLog)
  Run.log [.trace .parser
    s!"parser produced {parsed.statementCount} statements and {parsed.expressionCount} expressions"]
  Run.report session.sources parsed.diagnostics
  return parsed

def analyze (session : Session) (parsed : Syntax.Program) : Run Analyzed := do
  Run.log [.phase "Type checking..."]
  let analyzed := Analysis.analyze session.sources parsed.trees
  Run.log (analyzed.trace.map (.trace .analyzer))
  Run.log [.debug s!"typed tree has {analyzed.nodeCount} nodes",
    .trace .analyzer s!"analyzer emitted {analyzed.diagnostics.length} diagnostics"]
  Run.report session.sources analyzed.diagnostics
  return analyzed

def generate (analyzed : Analyzed) : Run Ir.Program := do
  Run.log [.phase "Generating code..."]
  let generated := Codegen.generate analyzed
  let count := generated.program.functions.length
  Run.log (generated.trace.map (.trace .codegen))
  Run.log [.debug s!"generated {count} functions", .trace .codegen s!"lowered {count} functions"]
  return generated.program

def simplifyLog (function : Ir.Function) : List LogLine :=
  (function.simplifyTrace function.simplifyBound).map (.trace .backend)

def allocateLog (function : Ir.Function) : List LogLine :=
  let live := function.liveMap
  let steps := match function.allocation live with
    | .ok state => state.steps
    | .error (_, state) => state.steps
  [.state .regalloc (function.liveDump live),
    .state .regalloc (function.interferenceDump (function.interference live))] ++
    steps.map fun (register, machine) =>
      .trace .regalloc (function.registerName register ++ " -> " ++ function.registerName machine)

def functionLog (function : Ir.Function) : List LogLine :=
  [.trace .backend ("optimising " ++ function.name)] ++ simplifyLog function ++
    match function.simplify with
    | .error _ => []
    | .ok simplified =>
      allocateLog simplified ++
        match simplified.allocate simplified.liveMap with
        | .error _ => []
        | .ok allocated => simplifyLog allocated

def functionsLog : List Ir.Function → List LogLine
  | [] => []
  | function :: rest =>
    functionLog function ++
      match function.finish with
      | .error _ => []
      | .ok _ => functionsLog rest

def allocate (session : Session) (program : Ir.Program) : Run Ir.Program := do
  Run.log [.phase "Allocating registers..."]
  if session.verbosity.traced .backend || session.verbosity.traced .regalloc then
    Run.log (functionsLog program.functions)
  match program.finish with
  | .error failure => throw (.backend failure.error failure.function.name)
  | .ok finished =>
    Run.log [.debug s!"backend finished {finished.functions.length} functions"]
    return finished

def assemble (program : Ir.Program) : Run String := do
  Run.log [.phase "Emitting assembly..."]
  let lines := Assembly.lines program
  Run.log [.debug s!"assembly is {lines.length} lines"]
  return Assembly.text program

def compile (session : Session) (stopAt : Stage) : Run CompileOutput := do
  let parsed ← session.parse
  if stopAt = .parse then return ← session.output stopAt parsed.dump []
  session.dump .ast parsed.dump
  let analyzed ← session.analyze parsed
  let symbols := SymbolEntry.ofTable session.sources analyzed.table
  session.dump .symbols (SymbolEntry.renderTable symbols)
  if stopAt = .typecheck then return ← session.output stopAt analyzed.dump symbols
  session.dump .tst analyzed.dump
  let program ← generate analyzed
  if stopAt = .codegen then return ← session.output stopAt program.dump symbols
  session.dump .ir program.dump
  let finished ← session.allocate program
  if stopAt = .regalloc then return ← session.output stopAt finished.dump symbols
  session.dump .regalloc finished.dump
  session.output stopAt (← assemble finished) symbols

/-- Runs the stages up to the given one, and keeps the diagnostics. The log holds what the settings let through. -/
def run (session : Session) (stopAt : Stage) : Except CompileError CompileOutput × List LogLine × Session :=
  let (result, progress) := (session.compile stopAt).run {}
  (result, progress.log.filter (·.isShown session.verbosity),
    { session with diagnostics := progress.diagnostics })

end Session

end FplCompiler

import FplCompiler.Diagnostic.Cause
import FplCompiler.Source.File

/-! A diagnostic is a cause at a place in the sources. -/

namespace FplCompiler

structure Diagnostic where
  cause : Cause
  span : Span

namespace Diagnostic

def isError (diagnostic : Diagnostic) : Bool :=
  diagnostic.cause.severity == .error

def plain (sources : SourceMap) (diagnostic : Diagnostic) : String :=
  sources.location diagnostic.span ++ ": " ++ diagnostic.cause.message

def plainAll (sources : SourceMap) (diagnostics : List Diagnostic) : String :=
  String.intercalate "\n" (diagnostics.map (plain sources))

def labels (sources : SourceMap) (diagnostic : Diagnostic) : List (String × String) :=
  diagnostic.cause.labels.map fun (span, text) => (sources.location span, text)

end Diagnostic

end FplCompiler

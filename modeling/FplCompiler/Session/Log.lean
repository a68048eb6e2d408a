import FplCompiler.Settings.Verbosity
import FplCompiler.Text.Style

/-! Lines that report what a compilation does. -/

namespace FplCompiler

inductive LogLine where
  | phase (text : String)
  | done (text : String)
  | caution (text : String)
  | debug (text : String)
  | trace (kind : TraceKind) (text : String)
  | state (kind : TraceKind) (text : String)
  deriving DecidableEq, Repr

namespace LogLine

def isShown (verbosity : Verbosity) : LogLine → Bool
  | phase _ | done _ | caution _ => verbosity.showsPhases
  | debug _ => verbosity.showsDebug
  | trace kind _ | state kind _ => verbosity.traced kind

def render (isColored : Bool) : LogLine → String
  | phase text => "    " ++ (Style.boldIn .brightGreen).paint isColored "-->" ++ " " ++ text
  | done text => (Style.boldIn .brightGreen).paint isColored "-->" ++ " " ++ text
  | caution text => (Style.boldIn .brightYellow).paint isColored "-->" ++ " " ++ text
  | debug text => "debug: " ++ text
  | trace kind text => "debug[" ++ kind.name ++ "]: " ++ text
  | state _ text => text

end LogLine

end FplCompiler

/-! Colours and weights of text on a terminal. -/

namespace FplCompiler

inductive Color where
  | red | yellow | blue | cyan | brightGreen | brightYellow
  deriving DecidableEq, Repr

def Color.code : Color → String
  | red => "31"
  | yellow => "33"
  | blue => "34"
  | cyan => "36"
  | brightGreen => "92"
  | brightYellow => "93"

structure Style where
  color : Option Color := none
  deriving DecidableEq, Repr

namespace Style

def bold : Style := {}

def boldIn (color : Color) : Style := ⟨some color⟩

def reset : String := "\x1b[0m"

def start (style : Style) : String :=
  match style.color with
  | none => "\x1b[1m"
  | some color => "\x1b[1;" ++ color.code ++ "m"

/-- Text in the style, if the terminal shows styles. Where a style ends inside the text, this one starts again. -/
def paint (style : Style) (isColored : Bool) (text : String) : String :=
  if isColored then style.start ++ text.replace reset (reset ++ style.start) ++ reset else text

end Style

def padTo (width : Nat) (text : String) : String :=
  text ++ String.ofList (List.replicate (width - text.length) ' ')

end FplCompiler

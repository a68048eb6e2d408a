/-! Positions in source files are byte offsets; a span is a range of them in one file. -/

namespace FplCompiler

abbrev FileId := Nat

structure Span where
  start : Nat
  stop : Nat
  file : FileId
  deriving DecidableEq, Repr, Inhabited

namespace Span

def nowhere : Span :=
  ⟨0, 0, 0⟩

def merge (first second : Span) : Span :=
  ⟨min first.start second.start, max first.stop second.stop, first.file⟩

def emptyAt (file : FileId) (position : Nat) : Span :=
  ⟨position, position, file⟩

def length (span : Span) : Nat :=
  span.stop - span.start

def isEmpty (span : Span) : Bool :=
  span.length == 0

def describe (span : Span) : String :=
  s!"(span start: {span.start} end: {span.stop} file: {span.file})"

end Span

end FplCompiler

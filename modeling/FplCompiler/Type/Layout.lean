import FplCompiler.Type.Ty

/-! Sizes and places in memory, in bytes. -/

namespace FplCompiler

def Ty.size : Ty → Nat
  | .bool | .char => 1
  | .unit | .error | .nothing => 0
  | .inlineArray element count => element.size * count
  | _ => 4

def Ty.alignment : Ty → Nat
  | .inlineArray element _ => element.alignment
  | type =>
    match type.size with
    | 0 => 1
    | 1 => 1
    | 2 => 2
    | _ => 4

structure Area where
  used : Nat
  deriving DecidableEq, Repr, Inhabited

namespace Area

def empty : Area :=
  ⟨0⟩

def nextOffset (area : Area) (alignment : Nat) : Nat :=
  let last := area.used + alignment - 1
  last - (last &&& (alignment - 1))

def reserve (area : Area) (size alignment : Nat) : Nat × Area :=
  let offset := area.nextOffset (max alignment 1)
  (offset, ⟨offset + size⟩)

end Area

end FplCompiler

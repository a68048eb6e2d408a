import FplCompiler.Collection.NatMap
import FplCompiler.Collection.NatSet

/-! What is known of the variables at one point of a body. Facts are values: what holds at a jump is kept aside and
joined with what holds where the jump ends. -/

namespace FplCompiler

/-- The facts at a point; `τ` is what a variable may be narrowed to. -/
structure Facts (τ : Type) where
  unset : NatSet := ∅
  maybeUnset : NatSet := ∅
  narrowed : NatMap τ := ∅
  freed : NatSet := ∅
  unreachable : Bool := false
  deriving DecidableEq, Repr, Inhabited

namespace Facts

variable {τ : Type}

def start : Facts τ :=
  {}

def nowhere : Facts τ :=
  { unreachable := true }

def setUnreachable (facts : Facts τ) : Facts τ :=
  { facts with unreachable := true }

def declareUnset (facts : Facts τ) (symbol : Nat) : Facts τ :=
  { facts with unset := facts.unset.insert symbol, maybeUnset := facts.maybeUnset.insert symbol }

def markSet (facts : Facts τ) (symbol : Nat) : Facts τ :=
  if facts.maybeUnset.contains symbol then
    { facts with unset := facts.unset.erase symbol, maybeUnset := facts.maybeUnset.erase symbol }
  else facts

def free (facts : Facts τ) (symbol : Nat) : Facts τ :=
  { facts with freed := facts.freed.insert symbol }

def reassign (facts : Facts τ) (symbol : Nat) : Facts τ :=
  { facts with freed := facts.freed.erase symbol }

def narrow (facts : Facts τ) (symbol : Nat) (type : τ) : Facts τ :=
  { facts with
    unset := facts.unset.erase symbol
    maybeUnset := facts.maybeUnset.erase symbol
    narrowed := facts.narrowed.insert symbol type }

def widen (facts : Facts τ) (symbol : Nat) : Facts τ :=
  { facts with narrowed := facts.narrowed.erase symbol }

def typeOf (facts : Facts τ) (symbol : Nat) (declared : τ) : τ :=
  (facts.narrowed.get? symbol).getD declared

def isUnset (facts : Facts τ) (symbol : Nat) : Bool :=
  facts.unset.contains symbol

def isMaybeUnset (facts : Facts τ) (symbol : Nat) : Bool :=
  facts.maybeUnset.contains symbol

def isFreed (facts : Facts τ) (symbol : Nat) : Bool :=
  facts.freed.contains symbol

/-- What holds where paths meet. A variable is unset if it is on all of them, maybe unset or freed if it is on any, and
narrowed if they agree on the type. Paths that do not arrive do not count. -/
def merge [DecidableEq τ] (paths : List (Facts τ)) : Facts τ :=
  match paths.filter (!·.unreachable) with
  | [] => nowhere
  | first :: rest =>
    { unset := rest.foldl (fun set path => set.inter path.unset) first.unset
      maybeUnset := rest.foldl (fun set path => set.union path.maybeUnset) first.maybeUnset
      narrowed := first.narrowed.filter fun symbol type =>
        rest.all fun path => path.narrowed.get? symbol = some type
      freed := rest.foldl (fun set path => set.union path.freed) first.freed
      unreachable := false }

end Facts

end FplCompiler

/-! Properties of characters as they are tabled: by the lengths of the runs of code points that lack and have them. -/

namespace FplCompiler.Text

abbrev CodeRuns := List Nat

def CodeRuns.holds : CodeRuns → Nat → Bool
  | lacking :: having :: rest, code =>
    if code < lacking + having then lacking ≤ code else CodeRuns.holds rest (code - (lacking + having))
  | _, _ => false

end FplCompiler.Text

import FplCompiler.Syntax.ExprParser

/-! Numerals: the digits of a number are read back as that number. -/

namespace FplCompiler.Syntax

theorem digitValue?_digitChar {base digit : Nat} (small : base ≤ 16) (below : digit < base) :
    digitValue? base digit.digitChar = some digit := by
  have single : ∀ digit < 16, digit.digitChar.isDigit = true ∧ digit.digitChar.toNat - '0'.toNat = digit ∨
      digit.digitChar.isDigit = false ∧ ('a' ≤ digit.digitChar && digit.digitChar ≤ 'z') = true ∧
        digit.digitChar.toNat - 'a'.toNat + 10 = digit := by decide
  rcases single digit (by omega) with ⟨plain, value⟩ | ⟨letter, lower, value⟩
  · simp only [digitValue?, plain, value, if_true, below]
  · simp only [digitValue?, letter, lower, value, if_true, Bool.false_eq_true, if_false, below]

theorem readDigits_toDigits {base : Nat} (two : 1 < base) (small : base ≤ 16) (value : Nat) :
    (Nat.toDigits base value).foldlM (fun value character => (digitValue? base character).map (base * value + ·)) 0 =
      some value := by
  induction value using Nat.strongRecOn with
  | ind value ih =>
    rw [Nat.toDigits_eq_if two]
    split
    case isTrue single => simp [digitValue?_digitChar small single]
    case isFalse several =>
      have less : value / base < value := Nat.div_lt_self (by omega) two
      have last : value % base < base := Nat.mod_lt _ (by omega)
      rw [List.foldlM_append, ih _ less]
      simp [digitValue?_digitChar small last, Nat.div_add_mod]

theorem numeral?_padded {base : Nat} (two : 1 < base) (small : base ≤ 16) (zeros value : Nat) :
    numeral? base (List.replicate zeros '0' ++ Nat.toDigits base value) = some value := by
  have leading : (List.replicate zeros '0').foldlM
      (fun value character => (digitValue? base character).map (base * value + ·)) 0 = some 0 := by
    induction zeros with
    | zero => rfl
    | succ zeros ih =>
      have zero : digitValue? base '0' = some 0 := digitValue?_digitChar small (by omega : 0 < base)
      rw [List.replicate_succ, List.foldlM_cons, zero]
      exact ih
  have some_ : Nat.toDigits base value ≠ [] := Nat.toDigits_ne_nil
  rw [numeral?, if_neg (by simp [some_]), List.foldlM_append, leading]
  exact readDigits_toDigits two small value

theorem numeral?_toDigits {base : Nat} (two : 1 < base) (small : base ≤ 16) (value : Nat) :
    numeral? base (Nat.toDigits base value) = some value :=
  numeral?_padded two small 0 value

/-- A mark with a number tells which number it is. -/
theorem numbered_injective (mark : List Char) {first second : Nat}
    (same : mark ++ Nat.toDigits 10 first = mark ++ Nat.toDigits 10 second) : first = second := by
  have values := congrArg (numeral? 10) (List.append_cancel_left same)
  rw [numeral?_toDigits (by decide) (by decide), numeral?_toDigits (by decide) (by decide)] at values
  exact Option.some.inj values

end FplCompiler.Syntax

import Mathlib
import AttrGrammar.Text.Numeral

/-! The digits of numbers: written in a base, a number is denoted by its digits, and these are letters
and digits. -/

namespace AttrGrammar.Text

theorem digitValue_digitChar {d : Nat} (hd : d < 16) : digitValue d.digitChar = d := by
  revert d
  decide

/-- Digits denote the sum of their values, each times the power of the base for its place. -/
theorem numeral_eq_ofDigits (base : Nat) (digits : List Char) :
    numeral base digits = Nat.ofDigits base (digits.reverse.map digitValue) := by
  induction digits using List.reverseRecOn with
  | nil => rfl
  | append_singleton digits c ih =>
      rw [numeral_append_singleton, List.reverse_append, List.reverse_singleton,
        List.singleton_append, List.map_cons, Nat.ofDigits_cons, ih]
      ring

/-- The digits of a number denote it, in any base with enough digits. -/
theorem numeral_toDigits {base : Nat} (hbase : 1 < base) (hle : base ≤ 16) (n : Nat) :
    numeral base (Nat.toDigits base n) = n := by
  induction n using Nat.strongRecOn with
  | ind n ih =>
    by_cases hn : n < base
    · rw [Nat.toDigits_of_lt_base hn, ← List.nil_append [n.digitChar],
        numeral_append_singleton, numeral_nil, digitValue_digitChar (by omega)]
      omega
    · have hless : n / base < n := Nat.div_lt_self (by omega) hbase
      have hdigit : n % base < 16 := by
        have hmod := Nat.mod_lt n (show 0 < base by omega)
        omega
      calc numeral base (Nat.toDigits base n)
          = numeral base (Nat.toDigits base (n / base) ++ [(n % base).digitChar]) := by
            rw [Nat.toDigits_of_base_le hbase (by omega)]
        _ = n / base * base + n % base := by
            rw [numeral_append_singleton, ih _ hless, digitValue_digitChar hdigit]
        _ = n := Nat.div_add_mod' n base

/-- The digits of a number are letters and digits. -/
theorem isAlphanum_of_mem_toDigits {base n : Nat} (hbase : 1 < base) (hle : base ≤ 16) :
    ∀ c ∈ Nat.toDigits base n, c.isAlphanum := by
  have hdigit : ∀ d < 16, d.digitChar.isAlphanum := by decide
  induction n using Nat.strongRecOn with
  | ind n ih =>
    by_cases hn : n < base
    · rw [Nat.toDigits_of_lt_base hn]
      exact List.forall_mem_singleton.2 (hdigit n (by omega))
    · rw [Nat.toDigits_of_base_le hbase (by omega), List.forall_mem_append]
      have hmod := Nat.mod_lt n (show 0 < base by omega)
      exact ⟨ih _ (Nat.div_lt_self (by omega) hbase),
        List.forall_mem_singleton.2 (hdigit _ (by omega))⟩

end AttrGrammar.Text

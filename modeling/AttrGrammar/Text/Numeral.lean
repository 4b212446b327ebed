/-! Numerals: the number that a sequence of digits denotes in a given base. -/

namespace AttrGrammar.Text

/-- The value of a digit, letters of either case standing for ten and more. -/
def digitValue (c : Char) : Nat :=
  if c.isDigit then c.toNat - '0'.toNat
  else if c.isUpper then c.toNat - 'A'.toNat + 10
  else c.toNat - 'a'.toNat + 10

/-- The number that some digits denote, the first one being the most significant. -/
def numeral (base : Nat) (digits : List Char) : Nat :=
  digits.foldl (fun n c => n * base + digitValue c) 0

/-- The character of a number. Surrogates and numbers beyond the last code point have none. -/
def charOfNumber? (n : Nat) : Option Char :=
  if n.isValidChar then some (Char.ofNat n) else none

@[simp]
theorem numeral_nil (base : Nat) : numeral base [] = 0 := rfl

theorem numeral_append_singleton (base : Nat) (digits : List Char) (c : Char) :
    numeral base (digits ++ [c]) = numeral base digits * base + digitValue c := by
  simp [numeral]

end AttrGrammar.Text

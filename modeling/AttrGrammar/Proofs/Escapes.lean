import AttrGrammar.Peg.CharSet
import AttrGrammar.Proofs.Numerals
import AttrGrammar.Text.Escape

/-! Reading escapes back. Whatever a character looks like between quotes, it can be told from the text
where it ends and which character it is: there is a function that reads one character of a quoted text
and undoes the escape. So two quoted texts that agree as far as the closing quote are one. -/

namespace AttrGrammar.Text

/-! ### Reading one character -/

/-- What a backslash and the text behind it stand for, and what is left of the text. -/
def readSequence : List Char → Option (Char × List Char)
  | [] => none
  | c :: w =>
    if c = 'u' then
      (charOfNumber? (numeral 16 ((w.drop 1).takeWhile (· != '\x7d')))).map
        (·, ((w.drop 1).dropWhile (· != '\x7d')).drop 1)
    else some (Peg.unescapedChar c, w)

/-- The character that a text between quotes begins with, and what is left; none at a quote. -/
def readEscaped : List Char → Option (Char × List Char)
  | [] => none
  | c :: w =>
    if c = '\\' then readSequence w else if c = '\x27' ∨ c = '"' then none else some (c, w)

theorem readSequence_numbered (c : Char) (w : List Char) :
    readSequence ('u' :: '\x7b' :: (Nat.toDigits 16 c.toNat ++ '\x7d' :: w)) = some (c, w) := by
  have hdigits : ∀ d ∈ Nat.toDigits 16 c.toNat, (d != '\x7d') = true := by
    intro d hd
    have halphanum := isAlphanum_of_mem_toDigits (by decide) (by decide) d hd
    rw [bne_iff_ne]
    rintro rfl
    exact absurd halphanum (by decide)
  rw [readSequence, if_pos rfl]
  show (charOfNumber? (numeral 16 ((Nat.toDigits 16 c.toNat ++ '\x7d' :: w).takeWhile _))).map
    (·, ((Nat.toDigits 16 c.toNat ++ '\x7d' :: w).dropWhile _).drop 1) = _
  rw [List.takeWhile_append_of_pos hdigits, List.dropWhile_append_of_pos hdigits,
    List.takeWhile_cons_of_neg (by decide), List.dropWhile_cons_of_neg (by decide),
    List.append_nil, numeral_toDigits (by decide) (by decide)]
  have hchar : charOfNumber? c.toNat = some c := by
    rw [charOfNumber?, if_pos (show c.toNat.isValidChar from c.valid), Char.ofNat_toNat]
  rw [hchar]
  rfl

/-- The written form of a character is read as this character. -/
theorem readEscaped_escapedChar (c : Char) (w : List Char) :
    readEscaped ((escapedChar c).toList ++ w) = some (c, w) := by
  unfold escapedChar
  split
  case h_8 hnul htab hreturn hfeed hbackslash hsingle hdouble =>
    split
    · have htext : (numbered c).toList ++ w =
          '\\' :: 'u' :: '\x7b' :: (Nat.toDigits 16 c.toNat ++ '\x7d' :: w) := by
        simp [numbered]
      rw [htext]
      exact readSequence_numbered c w
    · have htext : c.toString.toList ++ w = c :: w := by simp
      rw [htext, readEscaped, if_neg hbackslash, if_neg fun h => h.elim hsingle hdouble]
  all_goals rfl

/-! ### Quoted texts -/

/-- What begins with the same written forms goes on in the same way. -/
theorem escapedChar_cancel {c c' : Char} {w w' : List Char}
    (h : (escapedChar c).toList ++ w = (escapedChar c').toList ++ w') : c = c' ∧ w = w' := by
  have hread := congrArg readEscaped h
  rw [readEscaped_escapedChar, readEscaped_escapedChar] at hread
  exact Prod.mk.inj (Option.some.inj hread)

/-- No written form begins with a quote. -/
theorem escapedChar_ne_quote {q : Char} (hq : q = '\x27' ∨ q = '"') (c : Char) (w w' : List Char) :
    (escapedChar c).toList ++ w ≠ q :: w' := by
  intro h
  have hread := congrArg readEscaped h
  rw [readEscaped_escapedChar] at hread
  obtain rfl | rfl := hq <;> cases hread

/-- The characters of a quoted text and the quote behind them. -/
def quotedTail (q : Char) (text w : List Char) : List Char :=
  text.flatMap (fun c => (escapedChar c).toList) ++ q :: w

theorem quotedTail_cons (q c : Char) (text w : List Char) :
    quotedTail q (c :: text) w = (escapedChar c).toList ++ quotedTail q text w := by
  rw [quotedTail, List.flatMap_cons, List.append_assoc]
  rfl

theorem toList_quotedWith (q : Char) (text : String) (w : List Char) :
    (quotedWith q text).toList ++ w = q :: quotedTail q text.toList w := by
  simp [quotedWith, quotedTail, String.toList_join, List.flatMap_map]

/-- Quoted texts end at the first quote that is not escaped. -/
theorem quotedTail_cancel {q : Char} (hq : q = '\x27' ∨ q = '"') {text text' w w' : List Char}
    (h : quotedTail q text w = quotedTail q text' w') : text = text' ∧ w = w' := by
  induction text generalizing text' with
  | nil =>
    cases text' with
    | nil => exact ⟨rfl, (List.cons.inj h).2⟩
    | cons c' text' =>
      rw [quotedTail_cons] at h
      exact absurd h.symm (escapedChar_ne_quote hq c' _ _)
  | cons c text ih =>
    rw [quotedTail_cons] at h
    cases text' with
    | nil => exact absurd h (escapedChar_ne_quote hq c _ _)
    | cons c' text' =>
      rw [quotedTail_cons] at h
      obtain ⟨rfl, htail⟩ := escapedChar_cancel h
      obtain ⟨rfl, hrest⟩ := ih htail
      exact ⟨rfl, hrest⟩

end AttrGrammar.Text

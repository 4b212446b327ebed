import AttrGrammar.Proofs.CppTokens
import AttrGrammar.Proofs.Numerals
import AttrGrammar.Proofs.Words

/-! Expressions as they are written. Full parentheses and a blank at either side of an operator keep
the lexemes apart: a name or a number ends where the next one begins, and no text of an expression
begins with layout or with a mark that opens a comment. -/

namespace AttrGrammar.Cpp
open Text Peg
open Reader

/-- A word that is no keyword. -/
def IsName (name : String) : Prop :=
  name.toList.head?.any isIdStart ∧ name.toList.tail.all isIdCont ∧ name ∉ keywords

instance (name : String) : Decidable (IsName name) := inferInstanceAs (Decidable (_ ∧ _ ∧ _))

/-- Names are names, and numbers are in the range of integer literals. -/
def Expression.Writable : Expression → Prop
  | identifier name => IsName name
  | integer value => 0 ≤ value ∧ value ≤ maxInteger
  | unary _ operand => operand.Writable
  | binary _ l r => l.Writable ∧ r.Writable

/-! ### Words and numbers -/

theorem isIdCont_of_isDigit {c : Char} (h : c.isDigit) : isIdCont c :=
  forall_isDigit (by decide) h

/-- Neither a blank nor a mark of one character goes on with a word. -/
theorem not_isIdCont {c : Char} (hc : c ∈ " -!();\x7b\x7d".toList) : isIdCont c = false := by
  have hall : " -!();\x7b\x7d".toList.all (!isIdCont ·) := by decide
  simpa using List.all_eq_true.1 hall c hc

theorem ends_blank (w : List Char) : Ends isIdCont (' ' :: w) :=
  ends_cons (not_isIdCont (by decide))

theorem ends_mono {p q : Char → Bool} {w : List Char} (hw : Ends q w) (h : ∀ c, p c → q c) :
    Ends p w :=
  fun c hc => Bool.eq_false_iff.2 fun hp => by simpa [hw c hc] using h c hp

variable {front rest : List Char}

theorem firstLexeme_word_append (hstart : front.head?.any isIdStart)
    (hcont : ∀ c ∈ front.tail, isIdCont c) (hrest : Ends isIdCont rest) :
    firstLexeme (front ++ rest) = front := by
  cases front with
  | nil => cases hstart
  | cons c front =>
      have hcont : ∀ d ∈ front, isIdCont d := hcont
      rw [List.cons_append, firstLexeme_word hstart, takeWhile_of_ends hcont hrest]

theorem firstLexeme_number_append (hfront : front ≠ []) (hdigits : ∀ c ∈ front, c.isDigit)
    (hrest : Ends isIdCont rest) : firstLexeme (front ++ rest) = front := by
  obtain ⟨c, front, rfl⟩ := List.exists_cons_of_ne_nil hfront
  obtain ⟨hc, hdigits⟩ := List.forall_mem_cons.1 hdigits
  have hend : Ends Char.isDigit rest :=
    fun d hd => Bool.eq_false_iff.2 fun h => by simpa [hrest d hd] using isIdCont_of_isDigit h
  rw [List.cons_append, firstLexeme_number hc, takeWhile_of_ends hdigits hend]

theorem isDigit_toDigits (n : Nat) : ∀ c ∈ Nat.toDigits 10 n, c.isDigit :=
  fun _ => Nat.isDigit_of_mem_toDigits (by decide) (Nat.le_refl 10)

theorem any_head?_of_forall {p : Char → Bool} (hne : front ≠ []) (h : ∀ c ∈ front, p c) :
    front.head?.any p := by
  obtain ⟨c, front, rfl⟩ := List.exists_cons_of_ne_nil hne
  exact h c List.mem_cons_self

theorem head?_toDigits (n : Nat) : (Nat.toDigits 10 n).head?.any Char.isDigit :=
  any_head?_of_forall Nat.toDigits_ne_nil (isDigit_toDigits n)

theorem any_head?_mono {p q : Char → Bool} (h : ∀ c, p c → q c) {w : List Char}
    (hw : w.head?.any p) : w.head?.any q := by
  cases w with
  | nil => cases hw
  | cons c w => exact h c hw

/-- Where a character of one kind stands, none of another kind does. -/
theorem ends_of_any_head? {p q : Char → Bool} (h : ∀ c, p c → q c = false) {w : List Char}
    (hw : w.head?.any p) : Ends q w := by
  cases w with
  | nil => cases hw
  | cons c w => exact ends_cons (h c hw)

theorem any_head?_append {p : Char → Bool} (h : front.head?.any p) :
    (front ++ rest).head?.any p := by
  cases front with
  | nil => cases h
  | cons c front => exact h

/-! ### Texts of expressions -/

namespace Expression

/-- What an expression is written as. -/
def text (e : Expression) : List Char := e.render.toList

theorem text_integer (n : Nat) : (integer n).text = Nat.toDigits 10 n := by
  show (toString (n : Int)).toList = _
  rw [Int.toString_eq_repr]
  exact Nat.toList_repr

theorem text_unary (op : UnaryOp) (operand : Expression) :
    (unary op operand).text = op.symbol.toList ++ operand.text := String.toList_append

theorem text_binary (op : BinaryOp) (l r : Expression) :
    (binary op l r).text =
      '(' :: (l.text ++ ' ' :: (op.symbol.toList ++ ' ' :: (r.text ++ [')']))) := by
  simp only [text, render, String.toList_append, List.append_assoc]
  rfl

end Expression

/-! ### Where texts of expressions begin -/

theorem isWhiteSpace_of_isIdCont {c : Char} (h : isIdCont c) : isWhiteSpace c = false := by
  have hascending : AscendingFrom 0 whiteSpaceRanges := by
    simp only [AscendingFrom, whiteSpaceRanges]
    decide
  have hblanks : ∀ r ∈ whiteSpaceRanges, ∀ i < r.2 + 1 - r.1,
      isIdCont (Char.ofNat (r.1 + i)) = false := by decide +kernel
  refine Bool.eq_false_iff.2 fun hspace => ?_
  obtain ⟨r, hr, hlow, hhigh⟩ := (inRanges_iff hascending c.toNat).1 hspace
  have hblank := hblanks r hr (c.toNat - r.1) (by omega)
  rw [Nat.add_sub_cancel' hlow, Char.ofNat_toNat, h] at hblank
  cases hblank

/-- A character that an expression may begin with. -/
def opens (c : Char) : Bool := isIdCont c || ['-', '!', '('].contains c

theorem opens_mark {c : Char} (hc : c ∈ ['-', '!', '(']) : opens c :=
  Bool.or_eq_true_iff.2 (.inr (by simpa using hc))

theorem not_opens {c : Char} (hc : c ∈ ['\x7d', ';']) : opens c = false := by
  have hall : ['\x7d', ';'].all (!opens ·) := by decide
  simpa using List.all_eq_true.1 hall c hc

theorem settled_of_opens {c : Char} (h : opens c) (w : List Char) : Settled (c :: w) := by
  have hslash (word : List Char) : ¬ '/' :: word <+: c :: w := by
    intro hbegins
    obtain ⟨rfl, -⟩ := List.cons_prefix_cons.1 hbegins
    exact absurd h (by decide)
  have hspace : isWhiteSpace c = false := by
    rcases Bool.or_eq_true_iff.1 h with hcont | hmark
    · exact isWhiteSpace_of_isIdCont hcont
    · have hmarks : ['-', '!', '('].all (!isWhiteSpace ·) := by decide
      simpa using List.all_eq_true.1 hmarks c (List.contains_iff_mem.1 hmark)
  exact (settled_iff (c :: w)).2 ⟨hspace, hslash _, hslash _⟩

theorem settled_append (hfront : front.head?.any opens) (rest : List Char) :
    Settled (front ++ rest) := by
  cases front with
  | nil => cases hfront
  | cons c front => exact settled_of_opens hfront (front ++ rest)

namespace Expression

theorem opens_text {e : Expression} (h : e.Writable) : e.text.head?.any opens := by
  have hopens {c : Char} (hc : isIdCont c) : opens c := Bool.or_eq_true_iff.2 (.inl hc)
  cases e with
  | identifier name => exact any_head?_mono (fun _ hc => hopens (isIdCont_of_isIdStart hc)) h.1
  | integer value =>
      obtain ⟨n, rfl⟩ := Int.eq_ofNat_of_zero_le h.1
      rw [text_integer]
      exact any_head?_mono (fun _ hc => hopens (isIdCont_of_isDigit hc)) (head?_toDigits n)
  | unary op operand =>
      rw [text_unary]
      cases op <;> rfl
  | binary op l r =>
      rw [text_binary]
      rfl

theorem length_text_pos {e : Expression} (h : e.Writable) : 1 ≤ e.text.length := by
  have hopens := opens_text h
  cases htext : e.text with
  | nil =>
      rw [htext] at hopens
      cases hopens
  | cons c text => exact Nat.le_add_left 1 text.length

theorem settled_text {e : Expression} (h : e.Writable) (rest : List Char) :
    Settled (e.text ++ rest) := settled_append (opens_text h) rest

end Expression

end AttrGrammar.Cpp

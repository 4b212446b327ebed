import AttrGrammar.Peg.CharClass
import Mathlib

/-! The lexemes of a text in the small part of C++. Layout, that is white space and comments, stands
between lexemes; a lexeme is taken from what is left behind it, as long as possible where it is a
word, a number or an operator of two characters. -/

namespace AttrGrammar.Cpp
open Text Peg

/-! ### Layout -/

/-- The text from the first mark that closes a comment on; empty if there is none. -/
def fromMark : List Char → List Char
  | [] => []
  | c :: w => if "*/".toList <+: c :: w then c :: w else fromMark w

theorem length_fromMark_le (w : List Char) : (fromMark w).length ≤ w.length := by
  induction w with
  | nil => exact Nat.le_refl 0
  | cons c w ih =>
      unfold fromMark
      split
      · exact Nat.le_refl _
      · exact Nat.le_succ_of_le ih

/-- Either there is no mark, or the text goes on with one. -/
theorem fromMark_cases (w : List Char) :
    fromMark w = [] ∨ ∃ rest, fromMark w = "*/".toList ++ rest := by
  induction w with
  | nil => exact .inl rfl
  | cons c w ih =>
      unfold fromMark
      split
      · next h => exact .inr (h.imp fun _ hrest => hrest.symm)
      · exact ih

/-- What stands behind a character of white space or behind a comment at the beginning of a text. -/
def behindPiece (w : List Char) : Option (List Char) :=
  if w.head?.any isWhiteSpace then some w.tail
  else if "//".toList <+: w then some (w.dropWhile (· != '\n'))
  else if "/*".toList <+: w ∧ fromMark (w.drop 2) ≠ [] then some ((fromMark (w.drop 2)).drop 2)
  else none

theorem length_behindPiece_lt {w rest : List Char} (h : behindPiece w = some rest) :
    rest.length < w.length := by
  unfold behindPiece at h
  split at h
  · next hspace =>
    cases w with
    | nil => cases hspace
    | cons c w =>
        cases h
        exact Nat.lt_succ_self _
  · split at h
    · next hline =>
      obtain ⟨back, rfl⟩ := hline
      cases h
      show (List.dropWhile _ ('/' :: '/' :: back)).length < _
      rw [List.dropWhile_cons_of_pos (by decide)]
      exact Nat.lt_succ_of_le (List.length_dropWhile_le _ _)
    · split at h
      · next hblock =>
        obtain ⟨⟨back, rfl⟩, -⟩ := hblock
        cases h
        have hle := length_fromMark_le back
        simp only [List.length_drop]
        show (fromMark back).length - 2 < back.length + 2
        omega
      · cases h

/-- The text behind all white space and all comments at its beginning. -/
def skipLayout (w : List Char) : List Char :=
  match _h : behindPiece w with
  | some rest => skipLayout rest
  | none => w
  termination_by w.length
  decreasing_by exact length_behindPiece_lt _h

theorem skipLayout_some {w rest : List Char} (h : behindPiece w = some rest) :
    skipLayout w = skipLayout rest := by
  rw [skipLayout]
  split
  · next rest' h' =>
    rw [h] at h'
    cases h'
    rfl
  · next h' =>
    rw [h] at h'
    cases h'

theorem skipLayout_none {w : List Char} (h : behindPiece w = none) : skipLayout w = w := by
  rw [skipLayout]
  split
  · next h' =>
    rw [h] at h'
    cases h'
  · rfl

/-- Behind layout there is no more of it. -/
theorem behindPiece_skipLayout (w : List Char) : behindPiece (skipLayout w) = none := by
  fun_induction skipLayout w with
  | case1 _ _ _ ih => exact ih
  | case2 _ h => exact h

theorem length_skipLayout_le (w : List Char) : (skipLayout w).length ≤ w.length := by
  fun_induction skipLayout w with
  | case1 w rest h ih => exact Nat.le_trans ih (Nat.le_of_lt (length_behindPiece_lt h))
  | case2 => exact Nat.le_refl _

/-! ### Lexemes -/

/-- Operators of two characters, and the mark that opens a comment: behind layout there is none that
is closed. -/
def longMarks : List (List Char) :=
  ["||".toList, "&&".toList, "==".toList, "!=".toList, "<=".toList, ">=".toList, "/*".toList]

/-- The lexeme that a text begins with where it begins with no layout: the longest word, the longest
number, an operator of two characters, or a single character. -/
def firstLexeme : List Char → List Char
  | [] => []
  | c :: w =>
    if isIdStart c then c :: w.takeWhile isIdCont
    else if c.isDigit then c :: w.takeWhile Char.isDigit
    else if (c :: w).take 2 ∈ longMarks then (c :: w).take 2
    else [c]

/-- What stands behind the first lexeme. -/
def behindLexeme (w : List Char) : List Char := w.drop (firstLexeme w).length

theorem firstLexeme_cons (c : Char) (w : List Char) :
    firstLexeme (c :: w) =
      if isIdStart c then c :: w.takeWhile isIdCont
      else if c.isDigit then c :: w.takeWhile Char.isDigit
      else if (c :: w).take 2 ∈ longMarks then (c :: w).take 2
      else [c] := rfl

theorem firstLexeme_begins (w : List Char) : firstLexeme w <+: w := by
  cases w with
  | nil => exact List.prefix_rfl
  | cons c w =>
      rw [firstLexeme_cons]
      split
      · exact List.cons_prefix_cons.2 ⟨rfl, List.takeWhile_prefix _⟩
      · split
        · exact List.cons_prefix_cons.2 ⟨rfl, List.takeWhile_prefix _⟩
        · split
          · exact List.take_prefix 2 _
          · exact List.cons_prefix_cons.2 ⟨rfl, List.nil_prefix⟩

theorem firstLexeme_append (w : List Char) : firstLexeme w ++ behindLexeme w = w :=
  (List.prefix_append_drop (firstLexeme_begins w)).symm

theorem head?_firstLexeme (w : List Char) : (firstLexeme w).head? = w.head? := by
  cases w with
  | nil => rfl
  | cons c w =>
      rw [firstLexeme_cons]
      split
      · rfl
      · split
        · rfl
        · split <;> rfl

theorem firstLexeme_ne_nil {w : List Char} (hw : w ≠ []) : firstLexeme w ≠ [] := by
  intro h
  have hhead := head?_firstLexeme w
  rw [h] at hhead
  exact hw (List.head?_eq_none_iff.1 hhead.symm)

theorem length_behindLexeme_lt {w : List Char} (hw : w ≠ []) :
    (behindLexeme w).length < w.length := by
  have hsplit := congrArg List.length (firstLexeme_append w)
  have hfirst := List.length_pos_iff.2 (firstLexeme_ne_nil hw)
  rw [List.length_append] at hsplit
  omega

/-- The lexemes of a text, from its beginning to its end. -/
def lexemes (w : List Char) : List (List Char) :=
  if _h : skipLayout w = [] then []
  else firstLexeme (skipLayout w) :: lexemes (behindLexeme (skipLayout w))
  termination_by w.length
  decreasing_by exact Nat.lt_of_lt_of_le (length_behindLexeme_lt _h) (length_skipLayout_le w)

theorem skipLayout_idem (w : List Char) : skipLayout (skipLayout w) = skipLayout w :=
  skipLayout_none (behindPiece_skipLayout w)

theorem lexemes_skipLayout (w : List Char) : lexemes (skipLayout w) = lexemes w := by
  rw [lexemes, lexemes.eq_def w, skipLayout_idem]

/-- The text begins neither with layout nor with a comment that is never closed. -/
structure Settled (w : List Char) : Prop where
  piece : behindPiece w = none
  comment : ¬ "/*".toList <+: w

theorem Settled.skipLayout_eq {w : List Char} (h : Settled w) : skipLayout w = w :=
  skipLayout_none h.piece

theorem settled_iff (w : List Char) : Settled w ↔
    w.head?.any isWhiteSpace = false ∧ ¬ "//".toList <+: w ∧ ¬ "/*".toList <+: w := by
  constructor
  · rintro ⟨hpiece, hcomment⟩
    unfold behindPiece at hpiece
    split at hpiece
    · cases hpiece
    · next hspace =>
      split at hpiece
      · cases hpiece
      · next hline => exact ⟨Bool.eq_false_iff.2 hspace, hline, hcomment⟩
  · rintro ⟨hspace, hline, hcomment⟩
    refine ⟨?_, hcomment⟩
    rw [behindPiece, hspace, if_neg Bool.false_ne_true, if_neg hline, if_neg fun h => hcomment h.1]

/-- Two settled texts have the same lexemes. -/
structure Alike (w w' : List Char) : Prop where
  left : Settled w
  right : Settled w'
  lexemes : lexemes w = lexemes w'

/-- The first of the lexemes stands behind the layout. -/
theorem firstLexeme_skipLayout (w : List Char) :
    firstLexeme (skipLayout w) = (lexemes w).head?.getD [] := by
  rw [lexemes]
  split
  · next h => rw [h]; rfl
  · rfl

theorem lexemes_nil : lexemes [] = [] := by
  rw [lexemes, dif_pos (skipLayout_none rfl)]

theorem behindLexeme_skipLayout (w : List Char) :
    lexemes (behindLexeme (skipLayout w)) = (lexemes w).tail := by
  rw [lexemes.eq_def w]
  split
  · next h => rw [h, show behindLexeme [] = [] from rfl, lexemes_nil, List.tail_nil]
  · rfl

namespace Alike

variable {w w' : List Char}

theorem first_eq (h : Alike w w') : firstLexeme w = firstLexeme w' := by
  have hfirst := firstLexeme_skipLayout w
  rwa [h.lexemes, ← firstLexeme_skipLayout, h.left.skipLayout_eq, h.right.skipLayout_eq] at hfirst

theorem behind_eq (h : Alike w w') :
    Cpp.lexemes (behindLexeme w) = Cpp.lexemes (behindLexeme w') := by
  have hbehind := behindLexeme_skipLayout w
  rwa [h.lexemes, ← behindLexeme_skipLayout, h.left.skipLayout_eq, h.right.skipLayout_eq] at hbehind

theorem head_eq (h : Alike w w') : w.head? = w'.head? := by
  rw [← head?_firstLexeme, h.first_eq, head?_firstLexeme]

theorem eq_nil (h : Alike w w') : w = [] ↔ w' = [] := by
  rw [← List.head?_eq_none_iff, h.head_eq, List.head?_eq_none_iff]

end Alike

/-! ### Kinds of lexemes -/

/-- What holds of the ten digits holds of every digit. -/
theorem forall_isDigit {p : Char → Bool} (h : "0123456789".toList.all p) {c : Char}
    (hc : c.isDigit) : p c := by
  have hbounds : 48 ≤ c.toNat ∧ c.toNat ≤ 57 := by
    simpa [Char.isDigit, UInt32.le_iff_toNat_le] using hc
  obtain ⟨hlow, hhigh⟩ := hbounds
  have hdigits : ∀ n < 58, 48 ≤ n → Char.ofNat n ∈ "0123456789".toList := by decide
  have hmem := hdigits c.toNat (Nat.lt_succ_of_le hhigh) hlow
  rw [Char.ofNat_toNat] at hmem
  exact List.all_eq_true.1 h c hmem

theorem isIdStart_of_isDigit {c : Char} (h : c.isDigit) : isIdStart c = false := by
  have hnot : (!isIdStart c) = true := forall_isDigit (p := fun c => !isIdStart c)
    (by decide) h
  simpa using hnot

/-- A word goes as far as characters of words go. -/
theorem firstLexeme_word {c : Char} (hc : isIdStart c) (w : List Char) :
    firstLexeme (c :: w) = c :: w.takeWhile isIdCont := if_pos hc

/-- A number goes as far as digits go. -/
theorem firstLexeme_number {c : Char} (hc : c.isDigit) (w : List Char) :
    firstLexeme (c :: w) = c :: w.takeWhile Char.isDigit := by
  rw [firstLexeme_cons, isIdStart_of_isDigit hc]
  exact if_pos hc

/-- The marks that the grammars have rules for, and the one that opens a comment. -/
def marks : List (List Char) :=
  longMarks ++
    ["<", ">", "+", "-", "*", "/", "%", "!", "(", ")", "\x7b", "\x7d", ";"].map String.toList

theorem marks_spec : ∀ t ∈ marks, t.length ≤ 2 ∧ (t.length = 2 → t ∈ longMarks) ∧
    t.head?.any fun c => !isIdStart c && !c.isDigit := by decide

theorem longMarks_subset : ∀ t ∈ longMarks, t ∈ marks := by decide

/-- Where a mark stands, the first lexeme is a mark; it may be a longer one. -/
theorem firstLexeme_mark {t w : List Char} (ht : t ∈ marks) (h : t <+: w) :
    t <+: firstLexeme w ∧ firstLexeme w ∈ marks := by
  obtain ⟨hlength, hlong, hhead⟩ := marks_spec t ht
  obtain ⟨c, t, rfl⟩ := List.exists_cons_of_ne_nil (l := t) (by rintro rfl; cases hhead)
  obtain ⟨back, rfl⟩ := h
  have hc : isIdStart c = false ∧ c.isDigit = false := by simpa using hhead
  have hfirst : firstLexeme (c :: (t ++ back)) =
      if (c :: (t ++ back)).take 2 ∈ longMarks then (c :: (t ++ back)).take 2 else [c] := by
    rw [firstLexeme_cons, hc.1, hc.2]
    rfl
  show c :: t <+: firstLexeme (c :: (t ++ back)) ∧ firstLexeme (c :: (t ++ back)) ∈ marks
  rw [hfirst]
  by_cases htwo : (c :: (t ++ back)).take 2 ∈ longMarks
  · rw [if_pos htwo]
    refine ⟨List.prefix_take_iff.2 ⟨List.prefix_append (c :: t) back, hlength⟩,
      longMarks_subset _ htwo⟩
  · have hone : t = [] := by
      cases t with
      | nil => rfl
      | cons d t =>
          have ht : t = [] := by simpa using hlength
          subst ht
          exact absurd (hlong rfl) htwo
    subst hone
    rw [if_neg htwo]
    exact ⟨List.prefix_rfl, ht⟩

/-- Where no longer mark stands that begins with it, a mark stands if it is the first lexeme. -/
theorem mark_prefix_iff {t w : List Char} (ht : t ∈ marks)
    (hlongest : t <+: firstLexeme w → firstLexeme w = t) : t <+: w ↔ firstLexeme w = t := by
  constructor
  · intro h
    exact hlongest (firstLexeme_mark ht h).1
  · rintro rfl
    exact firstLexeme_begins w

/-- No longer mark begins with this one. -/
def Longest (t : List Char) : Prop := t ∈ marks ∧ ∀ l ∈ marks, t <+: l → l = t

instance (t : List Char) : Decidable (Longest t) := inferInstanceAs (Decidable (_ ∧ _))

theorem Longest.first_eq {t w : List Char} (h : Longest t) (hbegins : t <+: firstLexeme w) :
    firstLexeme w = t :=
  h.2 _ (firstLexeme_mark h.1 (hbegins.trans (firstLexeme_begins w))).2 hbegins

/-- Parentheses, braces and the semicolon. -/
def punctuation : List Char := ['(', ')', '\x7b', '\x7d', ';']

theorem longest_punctuation {c : Char} (hc : c ∈ punctuation) : Longest [c] := by
  have hall : punctuation.all fun c => Longest [c] := by decide
  simpa using List.all_eq_true.1 hall c hc

theorem longest_minus : Longest ['-'] := by decide

/-! ### Texts with the same lexemes -/

theorem comment_prefix_iff {w : List Char} :
    "/*".toList <+: w ↔ firstLexeme w = "/*".toList :=
  have hlongest : Longest "/*".toList := by decide
  mark_prefix_iff hlongest.1 hlongest.first_eq

/-- A comment that is never closed is a lexeme. -/
theorem comment_iff_of_lexemes_eq {w w' : List Char} (h : lexemes w = lexemes w') :
    "/*".toList <+: skipLayout w ↔ "/*".toList <+: skipLayout w' := by
  rw [comment_prefix_iff, comment_prefix_iff, firstLexeme_skipLayout, h, ← firstLexeme_skipLayout]

/-- Behind their layout, texts with the same lexemes are settled. -/
theorem alike_skipLayout {w w' : List Char} (h : lexemes w = lexemes w')
    (hcomment : ¬ "/*".toList <+: skipLayout w) : Alike (skipLayout w) (skipLayout w') where
  left := ⟨behindPiece_skipLayout w, hcomment⟩
  right := ⟨behindPiece_skipLayout w', mt (comment_iff_of_lexemes_eq h).2 hcomment⟩
  lexemes := by rw [lexemes_skipLayout, lexemes_skipLayout, h]

end AttrGrammar.Cpp

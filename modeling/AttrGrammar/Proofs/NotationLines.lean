import AttrGrammar.Proofs.Escapes
import AttrGrammar.Proofs.Words

/-! Lines of grammar notation. What stands between two parentheses, or in a whole text, is a line:
atoms, some with a mark behind them, and separators between them. How tightly separators bind does not
matter yet. A text is the text of one line only: what an atom is can be told from its first character
or its first word, and what follows an atom never goes on with it. -/

namespace AttrGrammar.Peg.Notation
open Text Reader

/-- A mark behind an atom. -/
inductive Mark where
  | optional
  | star
  | plus
  | expectation
  deriving DecidableEq

/-- What stands between two atoms of a line. -/
inductive Separator where
  | alternative
  | difference
  | exclusiveOr
  | intersection
  | sequence
  | list
  deriving DecidableEq

mutual

/-- A part of a line that holds together by itself. A name stands for whatever goes by it. -/
inductive Atom where
  | char (c : Char)
  | literal (text : String)
  | call (rule : String) (instanceName : Option String)
  | range (first last : Char)
  | group (line : Line)
  | token (line : Line)

/-- Atoms, each with a mark or without one, and separators between them. -/
inductive Line where
  | last (atom : Atom) (mark : Option Mark)
  | more (atom : Atom) (mark : Option Mark) (separator : Separator) (rest : Line)

end

/-! ### Texts -/

def Mark.sign : Mark → Char
  | optional => '?'
  | star => '*'
  | plus => '+'
  | expectation => '!'

/-- The sign of a separator; a sequence has none. -/
def Separator.sign? : Separator → Option Char
  | alternative => some '|'
  | difference => some '-'
  | exclusiveOr => some '^'
  | intersection => some '&'
  | sequence => none
  | list => some '%'

/-- The word in front of the ends of a range. -/
def rangeWord : List Char := ['r', 'a', 'n', 'g', 'e']

/-- The word in front of the body of a token. -/
def tokenWord : List Char := ['t', 'o', 'k', 'e', 'n']

/-- A mark, if there is one, in front of a text. -/
def markOnto (mark : Option Mark) (w : List Char) : List Char :=
  match mark with
  | some m => m.sign :: w
  | none => w

def Separator.onto (s : Separator) (w : List Char) : List Char :=
  match s.sign? with
  | some c => ' ' :: c :: ' ' :: w
  | none => ' ' :: w

mutual

/-- The text of an atom in front of another text. -/
def Atom.onto : Atom → List Char → List Char
  | .char c, w => '\x27' :: quotedTail '\x27' [c] w
  | .literal text, w => '"' :: quotedTail '"' text.toList w
  | .call rule none, w => rule.toList ++ w
  | .call rule (some name), w => rule.toList ++ ':' :: (name.toList ++ w)
  | .range first last, w =>
    rangeWord ++ '(' :: '\x27' :: quotedTail '\x27' [first]
      (',' :: ' ' :: '\x27' :: quotedTail '\x27' [last] (')' :: w))
  | .group line, w => '(' :: line.onto (')' :: w)
  | .token line, w => tokenWord ++ '(' :: line.onto (')' :: w)

/-- The text of a line in front of another text. -/
def Line.onto : Line → List Char → List Char
  | .last atom mark, w => atom.onto (markOnto mark w)
  | .more atom mark separator rest, w =>
    atom.onto (markOnto mark (separator.onto (rest.onto w)))

end

mutual

/-- All names are words, and none is a word that stands in front of parentheses. -/
def Atom.Proper : Atom → Prop
  | .call rule name =>
    IsWord rule.toList ∧ rule.toList ≠ rangeWord ∧ rule.toList ≠ tokenWord ∧
      ∀ n ∈ name, IsWord n.toList
  | .group line => line.Proper
  | .token line => line.Proper
  | _ => True

def Line.Proper : Line → Prop
  | .last atom _ => atom.Proper
  | .more atom _ _ rest => atom.Proper ∧ rest.Proper

end

/-! ### What follows -/

/-- The text begins with something that may stand behind an atom, or it is at its end. -/
def Behind (w : List Char) : Prop := ∀ c ∈ w.head?, c ∈ ['?', '*', '+', '!', ' ', ')']

/-- The text begins with a blank or a closing parenthesis, or it is at its end. -/
def BehindMark (w : List Char) : Prop := ∀ c ∈ w.head?, c ∈ [' ', ')']

/-- The text begins with a closing parenthesis, or it is at its end. -/
def Closed (w : List Char) : Prop := ∀ c ∈ w.head?, c ∈ [')']

/-- The text begins with what is no sign of a separator. -/
def Unsigned (w : List Char) : Prop := ∀ c ∈ w.head?, c ∉ ['|', '-', '^', '&', '%']

variable {w w' : List Char}

theorem Closed.behindMark (h : Closed w) : BehindMark w :=
  fun c hc => List.mem_cons_of_mem _ (h c hc)

theorem BehindMark.behind (h : BehindMark w) : Behind w :=
  fun c hc => List.mem_append_right ['?', '*', '+', '!'] (h c hc)

/-- None of the signs that stand behind a word goes on with it. -/
theorem not_isIdCont_sign : ∀ c ∈ ['?', '*', '+', '!', ' ', ')', '(', ':'], isIdCont c = false := by
  have hall : ['?', '*', '+', '!', ' ', ')', '(', ':'].all (!isIdCont ·) := by decide
  simpa using hall

theorem Behind.ends (h : Behind w) : Ends isIdCont w :=
  fun c hc => not_isIdCont_sign c (List.mem_append_left ['(', ':'] (h c hc))

theorem ends_paren (w : List Char) : Ends isIdCont ('(' :: w) :=
  ends_cons (not_isIdCont_sign _ (by decide))

theorem ends_colon (w : List Char) : Ends isIdCont (':' :: w) :=
  ends_cons (not_isIdCont_sign _ (by decide))

theorem closed_nil : Closed [] := by
  rintro c ⟨⟩

theorem closed_cons (w : List Char) : Closed (')' :: w) := by
  rintro c ⟨⟩
  exact List.mem_cons_self

theorem Separator.onto_eq (s : Separator) (w : List Char) : ∃ v, s.onto w = ' ' :: v := by
  cases s <;> exact ⟨_, rfl⟩

theorem behindMark_separator (s : Separator) (w : List Char) : BehindMark (s.onto w) := by
  obtain ⟨v, hv⟩ := s.onto_eq w
  rw [hv]
  rintro c ⟨⟩
  exact List.mem_cons_self

theorem behind_markOnto (mark : Option Mark) (h : BehindMark w) : Behind (markOnto mark w) := by
  cases mark with
  | none => exact h.behind
  | some m =>
    rintro c ⟨⟩
    cases m <;> decide

/-! ### Marks and separators -/

theorem Mark.sign_injective : ∀ m m' : Mark, m.sign = m'.sign → m = m' := by
  intro m m'
  cases m <;> cases m' <;> decide

theorem Mark.sign_not_behind (m : Mark) : m.sign ∉ [' ', ')'] := by
  cases m <;> decide

theorem markOnto_cancel {mark mark' : Option Mark} (hw : BehindMark w) (hw' : BehindMark w')
    (h : markOnto mark w = markOnto mark' w') : mark = mark' ∧ w = w' := by
  cases mark with
  | none =>
    cases mark' with
    | none => exact ⟨rfl, h⟩
    | some m =>
      obtain rfl : w = m.sign :: w' := h
      exact absurd (hw m.sign rfl) m.sign_not_behind
  | some m =>
    cases mark' with
    | none =>
      obtain rfl : m.sign :: w = w' := h
      exact absurd (hw' m.sign rfl) m.sign_not_behind
    | some m' =>
      obtain ⟨hsign, hrest⟩ := List.cons.inj h
      exact ⟨congrArg some (m.sign_injective m' hsign), hrest⟩

theorem Separator.sign?_injective : ∀ s s' : Separator, s.sign? = s'.sign? → s = s' := by
  intro s s'
  cases s <;> cases s' <;> decide

theorem Separator.mem_signs {s : Separator} {c : Char} (h : s.sign? = some c) :
    c ∈ ['|', '-', '^', '&', '%'] := by
  revert h
  cases s <;> rintro ⟨⟩ <;> decide

theorem Separator.onto_cancel {s s' : Separator} (hw : Unsigned w) (hw' : Unsigned w')
    (h : s.onto w = s'.onto w') : s = s' ∧ w = w' := by
  unfold Separator.onto at h
  cases hs : s.sign? with
  | none =>
    cases hs' : s'.sign? with
    | none =>
      rw [hs, hs'] at h
      exact ⟨s.sign?_injective s' (hs.trans hs'.symm), (List.cons.inj h).2⟩
    | some c =>
      rw [hs, hs'] at h
      obtain rfl := (List.cons.inj h).2
      exact absurd (mem_signs hs') (hw c rfl)
  | some c =>
    cases hs' : s'.sign? with
    | none =>
      rw [hs, hs'] at h
      obtain rfl := (List.cons.inj h).2
      exact absurd (mem_signs hs) (hw' c rfl)
    | some c' =>
      rw [hs, hs'] at h
      injection h with _ h
      injection h with hc h
      injection h with _ hrest
      exact ⟨s.sign?_injective s' (by rw [hs, hs', hc]), hrest⟩

/-! ### Atoms -/

/-- How an atom opens: with a parenthesis, with a quote of either kind, or with a word. -/
inductive Opening where
  | paren
  | single
  | double
  | word (word : List Char)

/-- How the atom opens that a text begins with. -/
def openingOf : List Char → Opening
  | '(' :: _ => .paren
  | '\x27' :: _ => .single
  | '"' :: _ => .double
  | w => .word (w.takeWhile isIdCont)

def Atom.opening : Atom → Opening
  | .char _ => .single
  | .literal _ => .double
  | .call rule _ => .word rule.toList
  | .range _ _ => .word rangeWord
  | .group _ => .paren
  | .token _ => .word tokenWord

/-- None of the signs that something else begins with begins a word. -/
theorem not_isIdStart_sign :
    ∀ c ∈ ['(', '\x27', '"', '|', '-', '^', '&', '%'], isIdStart c = false := by
  have hall : ['(', '\x27', '"', '|', '-', '^', '&', '%'].all (!isIdStart ·) := by decide
  simpa using hall

theorem head_ne_sign {word : List Char} (hword : IsWord word) {c : Char}
    (hc : c ∈ ['(', '\x27', '"', '|', '-', '^', '&', '%']) : (word ++ w).head? ≠ some c := by
  cases word with
  | nil => exact absurd hword.start (by decide)
  | cons d word =>
    rintro ⟨⟩
    exact absurd hword.start (by simp [not_isIdStart_sign c hc])

theorem openingOf_word {word : List Char} (hword : IsWord word) (hw : Ends isIdCont w) :
    openingOf (word ++ w) = .word word := by
  have htake := takeWhile_of_ends hword.isIdCont hw
  unfold openingOf
  split
  · next heq => exact absurd (by rw [heq]; rfl) (head_ne_sign (w := w) hword (c := '(') (by decide))
  · next heq =>
    exact absurd (by rw [heq]; rfl) (head_ne_sign (w := w) hword (c := '\x27') (by decide))
  · next heq => exact absurd (by rw [heq]; rfl) (head_ne_sign (w := w) hword (c := '"') (by decide))
  · rw [htake]

theorem isWord_range : IsWord rangeWord := by decide

theorem isWord_token : IsWord tokenWord := by decide

theorem Atom.openingOf_onto {a : Atom} (ha : a.Proper) (hw : Behind w) :
    openingOf (a.onto w) = a.opening := by
  cases a with
  | char | literal | group => rfl
  | range => exact openingOf_word isWord_range (ends_paren _)
  | token => exact openingOf_word isWord_token (ends_paren _)
  | call rule name =>
    cases name with
    | none => exact openingOf_word ha.1 hw.ends
    | some name => exact openingOf_word ha.1 (ends_colon _)

theorem unsigned_word {word : List Char} (hword : IsWord word) (w : List Char) :
    Unsigned (word ++ w) :=
  fun _ hc hsign => head_ne_sign hword (List.mem_append_right ['(', '\x27', '"'] hsign) hc

/-- No atom begins with the sign of a separator. -/
theorem Atom.unsigned_onto {a : Atom} (ha : a.Proper) (w : List Char) : Unsigned (a.onto w) := by
  cases a with
  | char | literal | group =>
    rintro c ⟨⟩
    decide
  | range => exact unsigned_word isWord_range _
  | token => exact unsigned_word isWord_token _
  | call rule name =>
    cases name with
    | none => exact unsigned_word ha.1 _
    | some name => exact unsigned_word ha.1 _

theorem Line.unsigned_onto {l : Line} (hl : l.Proper) (w : List Char) : Unsigned (l.onto w) := by
  cases l with
  | last a mark => exact Atom.unsigned_onto hl _
  | more a mark s rest => exact Atom.unsigned_onto hl.1 _

/-! ### What can be told from a text -/

theorem char_cancel {c c' : Char}
    (h : quotedTail '\x27' [c] w = quotedTail '\x27' [c'] w') : c = c' ∧ w = w' := by
  obtain ⟨hc, hrest⟩ := quotedTail_cancel (.inl rfl) h
  exact ⟨(List.cons.inj hc).1, hrest⟩

theorem range_cancel {first last first' last' : Char}
    (h : (Atom.range first last).onto w = (Atom.range first' last').onto w') :
    Atom.range first last = .range first' last' ∧ w = w' := by
  have htail := List.append_cancel_left h
  obtain ⟨rfl, hcomma⟩ := char_cancel (List.cons.inj (List.cons.inj htail).2).2
  have hlast := List.append_cancel_left
    (show [',', ' ', '\x27'] ++ _ = [',', ' ', '\x27'] ++ _ from hcomma)
  obtain ⟨rfl, hrest⟩ := char_cancel hlast
  exact ⟨rfl, (List.cons.inj hrest).2⟩

theorem call_cancel {rule rule' : String} {name name' : Option String}
    (ha : (Atom.call rule name).Proper) (hb : (Atom.call rule' name').Proper) (hw : Behind w)
    (hw' : Behind w') (h : (Atom.call rule name).onto w = (Atom.call rule' name').onto w') :
    Atom.call rule name = .call rule' name' ∧ w = w' := by
  have hcolon {v v' : List Char} (hv : Behind v) : v ≠ ':' :: v' := by
    rintro rfl
    exact absurd (hv ':' rfl) (by decide)
  cases name with
  | none =>
    cases name' with
    | none =>
      obtain ⟨hrule, hrest⟩ := ha.1.cancel hb.1 hw.ends hw'.ends h
      exact ⟨by rw [String.toList_inj.1 hrule], hrest⟩
    | some name' => exact absurd (ha.1.cancel hb.1 hw.ends (ends_colon _) h).2 (hcolon hw)
  | some name =>
    cases name' with
    | none => exact absurd (ha.1.cancel hb.1 (ends_colon _) hw'.ends h).2.symm (hcolon hw')
    | some name' =>
      obtain ⟨hrule, hrest⟩ := ha.1.cancel hb.1 (ends_colon _) (ends_colon _) h
      obtain ⟨hname, hrest⟩ := (ha.2.2.2 name rfl).cancel (hb.2.2.2 name' rfl) hw.ends hw'.ends
        (List.cons.inj hrest).2
      exact ⟨by rw [String.toList_inj.1 hrule, String.toList_inj.1 hname], hrest⟩

mutual

/-- An atom can be told from a text that goes on behind it in some way. -/
theorem Atom.onto_cancel (a b : Atom) {w w' : List Char} (ha : a.Proper) (hb : b.Proper)
    (hw : Behind w) (hw' : Behind w') (h : a.onto w = b.onto w') : a = b ∧ w = w' := by
  have hopening := congrArg openingOf h
  rw [Atom.openingOf_onto ha hw, Atom.openingOf_onto hb hw'] at hopening
  cases a with
  | char c =>
    cases b with
    | char c' =>
      obtain ⟨rfl, hrest⟩ := char_cancel (List.cons.inj h).2
      exact ⟨rfl, hrest⟩
    | _ => cases hopening
  | literal text =>
    cases b with
    | literal text' =>
      obtain ⟨htext, hrest⟩ := quotedTail_cancel (.inr rfl) (List.cons.inj h).2
      exact ⟨by rw [String.toList_inj.1 htext], hrest⟩
    | _ => cases hopening
  | call rule name =>
    cases b with
    | call rule' name' => exact call_cancel ha hb hw hw' h
    | range => exact absurd (Opening.word.inj hopening) ha.2.1
    | token => exact absurd (Opening.word.inj hopening) ha.2.2.1
    | _ => cases hopening
  | range first last =>
    cases b with
    | call => exact absurd (Opening.word.inj hopening).symm hb.2.1
    | range first' last' => exact range_cancel h
    | token => exact absurd (Opening.word.inj hopening) (by decide)
    | _ => cases hopening
  | group line =>
    cases b with
    | group line' =>
      obtain ⟨rfl, hrest⟩ := Line.onto_cancel line line' ha hb (closed_cons _) (closed_cons _)
        (List.cons.inj h).2
      exact ⟨rfl, (List.cons.inj hrest).2⟩
    | _ => cases hopening
  | token line =>
    cases b with
    | call => exact absurd (Opening.word.inj hopening).symm hb.2.2.1
    | range => exact absurd (Opening.word.inj hopening) (by decide)
    | token line' =>
      obtain ⟨rfl, hrest⟩ := Line.onto_cancel line line' ha hb (closed_cons _) (closed_cons _)
        (List.cons.inj (List.append_cancel_left h)).2
      exact ⟨rfl, (List.cons.inj hrest).2⟩
    | _ => cases hopening

/-- A line can be told from a text in which it ends at a closing parenthesis or with the text. -/
theorem Line.onto_cancel (l m : Line) {w w' : List Char} (hl : l.Proper) (hm : m.Proper)
    (hw : Closed w) (hw' : Closed w') (h : l.onto w = m.onto w') : l = m ∧ w = w' := by
  have hblank {v : List Char} (s : Separator) (hv : Closed v) (u : List Char) : v ≠ s.onto u := by
    rintro rfl
    obtain ⟨t, ht⟩ := s.onto_eq u
    rw [ht] at hv
    exact absurd (hv ' ' rfl) (by decide)
  cases l with
  | last a mark =>
    cases m with
    | last b mark' =>
      obtain ⟨rfl, hmark⟩ := Atom.onto_cancel a b hl hm (behind_markOnto _ hw.behindMark)
        (behind_markOnto _ hw'.behindMark) h
      obtain ⟨rfl, hrest⟩ := markOnto_cancel hw.behindMark hw'.behindMark hmark
      exact ⟨rfl, hrest⟩
    | more b mark' s' rest' =>
      obtain ⟨-, hmark⟩ := Atom.onto_cancel a b hl hm.1 (behind_markOnto _ hw.behindMark)
        (behind_markOnto _ (behindMark_separator _ _)) h
      obtain ⟨-, hrest⟩ := markOnto_cancel hw.behindMark (behindMark_separator _ _) hmark
      exact absurd hrest (hblank s' hw _)
  | more a mark s rest =>
    cases m with
    | last b mark' =>
      obtain ⟨-, hmark⟩ := Atom.onto_cancel a b hl.1 hm
        (behind_markOnto _ (behindMark_separator _ _)) (behind_markOnto _ hw'.behindMark) h
      obtain ⟨-, hrest⟩ := markOnto_cancel (behindMark_separator _ _) hw'.behindMark hmark
      exact absurd hrest.symm (hblank s hw' _)
    | more b mark' s' rest' =>
      obtain ⟨rfl, hmark⟩ := Atom.onto_cancel a b hl.1 hm.1
        (behind_markOnto _ (behindMark_separator _ _))
        (behind_markOnto _ (behindMark_separator _ _)) h
      obtain ⟨rfl, hseparator⟩ :=
        markOnto_cancel (behindMark_separator _ _) (behindMark_separator _ _) hmark
      obtain ⟨rfl, hlines⟩ := Separator.onto_cancel (rest.unsigned_onto hl.2 _)
        (rest'.unsigned_onto hm.2 _) hseparator
      obtain ⟨rfl, hrest⟩ := Line.onto_cancel rest rest' hl.2 hm.2 hw hw' hlines
      exact ⟨rfl, hrest⟩

end

/-- A text is the text of one line only. -/
theorem Line.onto_injective {l m : Line} (hl : l.Proper) (hm : m.Proper)
    (h : l.onto [] = m.onto []) : l = m :=
  (l.onto_cancel m hl hm closed_nil closed_nil h).1

end AttrGrammar.Peg.Notation

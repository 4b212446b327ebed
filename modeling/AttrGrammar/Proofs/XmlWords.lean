import AttrGrammar.Proofs.ReadingSteps
import AttrGrammar.Proofs.XmlRules
import AttrGrammar.Proofs.XmlTree

/-! Reading the words of written documents: names, blanks and references by name, each to its end and
no further, because what follows it begins with a character that cannot belong to it; and the values
that are put together from characters and references. -/

namespace AttrGrammar.Xml
open Text Peg
open Reader Context

variable {σ : Type} {rest : List Char} {u : Receiver σ}

@[simp]
theorem matched_of (f : Frame Value) (text : List Char) (u : Receiver σ) :
    matched (.of f text u) = .ofList text := congrArg String.ofList (toList_wholeText text)

/-! ### Sets of single characters -/

theorem contains_singles {set : CharSet} (chars : List Char)
    (h : set.ranges = chars.map fun c => (c, c)) (c : Char) :
    set.contains c = (chars.contains c != set.isInverse) := by
  have hmem : (set.ranges.any fun r => r.1 ≤ c && c ≤ r.2) = chars.contains c := by
    rw [h, List.any_map, Bool.eq_iff_iff, List.any_eq_true, List.contains_iff_mem]
    simp only [Function.comp_apply, Bool.and_eq_true, decide_eq_true_eq]
    constructor
    · rintro ⟨a, ha, hle, hge⟩
      rwa [Char.le_antisymm hge hle]
    · exact fun hc => ⟨c, hc, Char.le_refl c, Char.le_refl c⟩
  rw [CharSet.contains, hmem]

theorem nameStart_eq : (fun c => CharClass.letter.admits c || (CharSet.new "_:").contains c) =
    isNameStart := by
  funext c
  rw [contains_singles ['_', ':'] rfl, Bool.eq_iff_iff]
  simp [isNameStart, CharClass.admits, CharSet.new, CharSet.ofSource, or_assoc]

theorem nameChar_eq : (fun c => (CharClass.letter.admits c || CharClass.digit.admits c) ||
    (CharSet.new "._:-").contains c) = isNameChar := by
  funext c
  rw [contains_singles ['.', '_', ':', '-'] rfl, Bool.eq_iff_iff]
  simp [isNameChar, CharClass.admits, CharSet.new, CharSet.ofSource, or_assoc]

theorem blanks_eq : (CharSet.new " \t\r\n").contains = isBlank := by
  funext c
  rw [contains_singles [' ', '\t', '\r', '\n'] rfl, Bool.eq_iff_iff]
  simp [isBlank, CharSet.new, CharSet.ofSource, or_assoc]

/-! ### Names, blanks and references -/

theorem setMatched_of (f : Frame Value) (text : List Char) (u : Receiver σ) :
    setText (matched (.of f text u)) (.of f text u) =
      .of (f.setValue (.text (.ofList text))) text u := by
  rw [matched_of]
  rfl

theorem readName_name (n : Name) (hrest : Ends isNameChar rest) (args : List Value) :
    readName args (n.text.toList ++ rest) u = .hit rest (some (.text n.text)) u := by
  obtain ⟨first, chars, htext, hfirst, hchars⟩ := n.valid
  let f : Frame Value := (Frame.ofLocals []).bindInherited [] args
  have hword : ((oneChar isNameStart).seq (star .nothing (oneChar isNameChar)))
      (n.text.toList ++ rest) f u = .hit rest f u := by
    rw [htext, List.cons_append, seq_hit (by rw [oneChar_cons, if_pos hfirst])]
    exact star_oneChar hchars hrest f u
  have hmatched := setMatched_of f n.text.toList u
  rw [String.ofList_toList] at hmatched
  unfold readName
  rw [choice_oneChar, choice_oneChar, choice_oneChar, nameStart_eq, nameChar_eq]
  exact activation_value (action_hit hword hmatched) rfl

/-- No name stands here. -/
theorem readName_miss (h : Ends isNameStart rest) (args : List Value) :
    readName args rest u = .miss () u := by
  unfold readName
  rw [choice_oneChar, nameStart_eq]
  exact activation_miss (action_miss (seq_miss (oneChar_miss h _ u)))

/-- What begins as no name does, does not begin a name. -/
theorem Name.ends (n : Name) {accept : Char → Bool}
    (h : ∀ c, isNameStart c = true → accept c = false) (rest : List Char) :
    Ends accept (n.text.toList ++ rest) := by
  obtain ⟨first, chars, htext, hfirst, -⟩ := n.valid
  rw [htext]
  intro c hc
  cases hc
  exact h first hfirst

/-- A character of a kind is not one that is not of the kind. -/
theorem not_beq {accept : Char → Bool} {d : Char} (hd : accept d = false) (c : Char)
    (h : accept c = true) : (c == d) = false := by
  refine Bool.eq_false_iff.2 fun heq => ?_
  rw [eq_of_beq heq, hd] at h
  cases h

theorem Name.ends_char (n : Name) {c : Char} (h : isNameStart c = false) (rest : List Char) :
    Ends (· == c) (n.text.toList ++ rest) := n.ends (not_beq h) rest

theorem isBlank_nameStart (c : Char) (h : isNameStart c = true) : isBlank c = false := by
  refine Bool.eq_false_iff.2 fun hblank => ?_
  have hc : c = ' ' ∨ c = '\t' ∨ c = '\r' ∨ c = '\n' := by
    simpa [isBlank, or_assoc] using hblank
  rcases hc with rfl | rfl | rfl | rfl <;> exact absurd h (by decide)

/-- A blank does not go on with a name. -/
theorem isBlank_nameChar (c : Char) (h : isBlank c = true) : isNameChar c = false := by
  have hc : c = ' ' ∨ c = '\t' ∨ c = '\r' ∨ c = '\n' := by
    simpa [isBlank, or_assoc] using h
  rcases hc with rfl | rfl | rfl | rfl <;> decide

theorem readBlanks_run {chars : List Char} (h : ∀ c ∈ chars, isBlank c) (hchars : chars ≠ [])
    (hrest : Ends isBlank rest) (args : List Value) :
    readBlanks args (chars ++ rest) u = .hit rest none u := by
  unfold readBlanks
  rw [blanks_eq]
  exact activation_hit (plus_oneChar h hchars hrest _ u)

theorem readBlanks_miss (hrest : Ends isBlank rest) (args : List Value) :
    readBlanks args rest u = .miss () u := by
  unfold readBlanks
  rw [blanks_eq]
  exact activation_miss (plus_miss (oneChar_miss hrest _ u))

theorem readEntity_of {name : String} {c : Char} (h : entities.lookup name = some c)
    {f : Frame Value} (hf : f.instances = []) (text : List Char) (u : Receiver σ) :
    readEntity (.of (f.setInstance "Name" (.text name)) text u) =
      .of (f.setValue (.text c.toString)) text u := by
  unfold readEntity takeText ActionContext.takeInstance
  dsimp only [ActionContext.of]
  rw [Frame.takeInstance_setInstance hf]
  dsimp only [Option.bind_some, Value.text?, Option.getD_some]
  rw [h]
  rfl

theorem reader_name {k : Nat} (hk : 1 ≤ k) : (reader k "Name" : Callee Value (Receiver σ)) = readName := by
  obtain ⟨k, rfl⟩ := Nat.exists_eq_add_of_le' hk
  exact reader_succ k "Name"

theorem reader_blanks {k : Nat} (hk : 1 ≤ k) : (reader k "S" : Callee Value (Receiver σ)) = readBlanks := by
  obtain ⟨k, rfl⟩ := Nat.exists_eq_add_of_le' hk
  exact reader_succ k "S"

theorem requiredChar_hit (c : Char) (rest : List Char) (f : Frame Value) (u : Receiver σ) :
    requiredChar c (c :: rest) f u = .hit rest f u := expect_hit (char_hit c rest f u)

theorem reading_name {k : Nat} (hk : 1 ≤ k) (n : Name) (hrest : Ends isNameChar rest)
    (f : Frame Value) (u : Receiver σ) :
    reading (reader k) "Name" (n.text.toList ++ rest) f u =
      .hit rest (f.setInstance "Name" (.text n.text)) u := by
  refine nonterminal_hit (v := some (Value.text n.text)) rfl ?_
  rw [reader_name hk]
  exact readName_name n hrest []

/-- Blanks may be missing. -/
theorem optional_blanks {k : Nat} (hk : 1 ≤ k) (hrest : Ends isBlank rest) (f : Frame Value)
    (u : Receiver σ) : optional (reading (reader k) "S") rest f u = .hit rest f u := by
  refine optional_miss (nonterminal_miss rfl ?_)
  rw [reader_blanks hk]
  exact readBlanks_miss hrest []

/-- A known name is read as its character. -/
theorem reader_entity {k : Nat} (hk : 2 ≤ k) (n : Name) {c : Char}
    (h : entities.lookup n.text = some c) (rest : List Char) :
    reader k "Reference" [] ('&' :: (n.text.toList ++ ';' :: rest)) u =
      .hit rest (some (.text c.toString)) u := by
  obtain ⟨k, rfl⟩ := Nat.exists_eq_add_of_le' hk
  let f : Frame Value := (Frame.ofLocals []).bindInherited [] []
  have hname : reading (reader (k + 1)) "Name" (n.text.toList ++ ';' :: rest) f u =
      .hit (';' :: rest) (f.setInstance "Name" (.text n.text)) u :=
    reading_name (by omega) n (ends_cons (by decide)) f u
  have hhash : Ends (· == '#') (n.text.toList ++ ';' :: rest) := n.ends_char (by decide) _
  rw [show k + 2 = (k + 1) + 1 from rfl, reader_succ]
  refine activation_value (show _ = Outcome.hit rest (f.setValue (.text c.toString)) u from ?_) rfl
  refine (seq_hit (char_hit ..)).trans ?_
  refine (seq_hit (expect_hit (show _ = Outcome.hit (';' :: rest) _ _ from ?_))).trans
    (requiredChar_hit ..)
  exact choice_right (choice_right (seq_miss (literal_miss (hhash.not_begins ['x']) f u))
    (seq_miss (oneChar_miss hhash f u))) (action_hit hname (readEntity_of h rfl _ u))

/-- No reference stands here. -/
theorem reader_reference_miss {k : Nat} (hk : 1 ≤ k) (hrest : Ends (· == '&') rest)
    (u : Receiver σ) : reader k "Reference" [] rest u = .miss () u := by
  obtain ⟨k, rfl⟩ := Nat.exists_eq_add_of_le' hk
  rw [reader_succ]
  exact activation_miss (seq_miss (oneChar_miss hrest _ u))

/-! ### Plain characters -/

/-- A character stands for itself. -/
def isPlain (quoted : Bool) (c : Char) : Bool := (entityOf? quoted c).isNone

theorem isPlain_iff {quoted : Bool} {c : Char} :
    isPlain quoted c = true ↔ c ≠ '&' ∧ c ≠ '<' ∧ ¬ (quoted = true ∧ c = '"') := by
  unfold isPlain entityOf?
  split
  · simp [*]
  · split
    · simp [*]
    · split <;> simp_all

theorem plain_text : (CharSet.inverse "<&").contains = isPlain false := by
  funext c
  rw [contains_singles ['<', '&'] rfl, Bool.eq_iff_iff, isPlain_iff]
  simp [CharSet.inverse, CharSet.ofSource, and_comm]

theorem spelling_plain {quoted : Bool} {c : Char} (h : isPlain quoted c) :
    (spelling quoted c).toList = [c] := by
  rw [isPlain, Option.isNone_iff_eq_none] at h
  simp [spelling, h, Char.toString]

theorem isPlain_ampersand (quoted : Bool) : isPlain quoted '&' = false := by
  cases quoted <;> decide

/-! ### Values -/

/-- The frame in which a value is read. -/
def valueFrame (t : List Char) : Frame Value := ⟨some (.text (.ofList t)), [], [], []⟩

theorem appendMatched_of (before : List Char) (text : List Char) (u : Receiver σ) :
    appendText (matched (.of (valueFrame before) text u)) (.of (valueFrame before) text u) =
      .of (valueFrame (before ++ text)) text u := by
  rw [matched_of, valueFrame, valueFrame, String.ofList_append]
  rfl

theorem appendReference_of (before : List Char) (c : Char) (text : List Char) (u : Receiver σ) :
    appendReference (.of ((valueFrame before).setInstance "Reference" (.text c.toString)) text u) =
      .of (valueFrame (before ++ [c])) text u := by
  unfold appendReference takeText ActionContext.takeInstance
  dsimp only [ActionContext.of]
  rw [Frame.takeInstance_setInstance rfl, valueFrame, valueFrame, String.ofList_append]
  rfl

end AttrGrammar.Xml

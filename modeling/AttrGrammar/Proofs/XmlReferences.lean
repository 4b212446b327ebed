import AttrGrammar.Proofs.Numerals
import AttrGrammar.Proofs.XmlReporting

/-! Reading references and the attribute values that they stand in. The digits of a number are told
from a name by the sign in front of them and from digits of the other base by the letter behind it.
Then the number decides: it is that of a character, which becomes the text of the reference, or the
parse stops with a message that shows the digits. -/

namespace AttrGrammar.Xml
open Text Peg
open Reader Context

variable {σ : Type} {rest : List Char}

/-! ### Faults of references -/

/-- Why a reference stops the parse, if it does. -/
def Reference.fault? (r : Reference) : Option String :=
  if r.IsValid then none
  else some s!"'{String.ofList r.digits}' is not a valid character reference"

/-- Why the first reference that is not valid stops the parse, if there is one. -/
def firstFault? (references : List Reference) : Option String :=
  references.findSome? Reference.fault?

theorem firstFault?_append (front back : List Reference) :
    firstFault? (front ++ back) = (firstFault? front).or (firstFault? back) :=
  List.findSome?_append

theorem firstFault?_singleton (r : Reference) : firstFault? [r] = r.fault? := by
  rw [firstFault?, List.findSome?_singleton]

theorem firstFault?_valid {references : List Reference} (h : ∀ r ∈ references, r.IsValid) :
    firstFault? references = none :=
  List.findSome?_eq_none_iff.2 fun r hr => if_pos (h r hr)

theorem firstFault?_invalid {before after : List Reference} {r : Reference}
    (hbefore : ∀ r' ∈ before, r'.IsValid) (hr : ¬ r.IsValid) :
    firstFault? (before ++ r :: after) =
      some s!"'{String.ofList r.digits}' is not a valid character reference" := by
  rw [firstFault?_append, firstFault?_valid hbefore, Option.none_or, firstFault?,
    List.findSome?_cons, Reference.fault?, if_neg hr]

/-! ### References -/

theorem Reference.valid_entity (name : Name) (c : Char) (h : entities.lookup name.text = some c) :
    (entity name c h).IsValid := c.valid

theorem Reference.character_entity (name : Name) (c : Char)
    (h : entities.lookup name.text = some c) : (entity name c h).character = c := Char.ofNat_toNat c

section

variable {base : Nat} {text : List Char} {f : Frame Value} {u : Receiver σ}

/-- The number of some digits is that of a character. -/
theorem readCharacter_valid (h : (numeral base text).isValidChar) :
    readCharacter base (.of f text u) =
      .of (f.setValue (.text (Char.ofNat (numeral base text)).toString)) text u := by
  have hchar : charOfNumber? (numeral base (ActionContext.of f text u).text.toList) =
      some (.ofNat (numeral base text)) := by
    rw [ActionContext.of, toList_wholeText]
    exact if_pos h
  rw [readCharacter, hchar]
  rfl

theorem readCharacter_invalid (h : ¬ (numeral base text).isValidChar) :
    (readCharacter base (.of f text u)).error =
      some s!"'{String.ofList text}' is not a valid character reference" := by
  have hchar : charOfNumber? (numeral base (ActionContext.of f text u).text.toList) = none := by
    rw [ActionContext.of, toList_wholeText]
    exact if_neg h
  rw [readCharacter, hchar, matched_of]
  rfl

end

/-- Digits that have been read become the character of their number, or there is none and the parse
stops. -/
theorem yields_readCharacter {radix : Radix} (digits : SomeRun radix.isDigit)
    {x : Reader Value (Receiver σ)} {f : Frame Value} {u : Receiver σ}
    (h : x (digits.chars ++ rest) f u = .hit rest f u) :
    let r := Reference.number radix digits
    (action (readCharacter radix.base) x (digits.chars ++ rest) f u).Yields r.fault? rest
      (f.setValue (.text r.character.toString)) u := by
  intro r
  have hnumber : numeral radix.base digits.chars = r.codePoint :=
    numeral_eq_ofDigits radix.base digits.chars
  by_cases hvalid : r.IsValid
  · rw [Reference.fault?, if_pos hvalid, Reference.character, ← hnumber]
    exact action_hit h (readCharacter_valid (by rw [hnumber]; exact hvalid))
  · rw [Reference.fault?, if_neg hvalid]
    exact action_raised h (readCharacter_invalid (by rw [hnumber]; exact hvalid))

theorem Reference.reads {k : Nat} (hk : 2 ≤ k) (r : Reference) (rest : List Char)
    (u : Receiver σ) :
    (reader k "Reference" [] (r.write ++ rest) u).Yields r.fault? rest
      (some (.text r.character.toString)) u := by
  match r with
  | .entity name c h =>
      have hwritten : (entity name c h).write ++ rest = '&' :: (name.text.toList ++ ';' :: rest) := by
        simp [write]
      rw [fault?, if_pos (valid_entity name c h), character_entity, hwritten]
      exact reader_entity hk name h rest
  | .number radix digits =>
      obtain ⟨k, rfl⟩ := Nat.exists_eq_add_of_le' hk
      let f : Frame Value := (Frame.ofLocals []).bindInherited [] []
      let f' : Frame Value := f.setValue (.text (number radix digits).character.toString)
      have hwritten : (number radix digits).write ++ rest =
          '&' :: (radix.mark ++ (digits.chars ++ ';' :: rest)) := by
        simp [write]
      have hread : (plus nothing (oneChar radix.isDigit) (digits.chars ++ ';' :: rest) f u) =
          .hit (';' :: rest) f u :=
        plus_oneChar digits.valid digits.nonempty (ends_cons (by cases radix <;> decide)) f u
      have hdigits := yields_readCharacter digits hread
      rw [hwritten, show k + 2 = (k + 1) + 1 from rfl, reader_succ]
      refine yields_activation_value (g := f') ?_ rfl
      refine yields_hit_seq (char_hit ..) (yields_seq_hit (yields_expect (yields_choice ?_))
        (requiredChar_hit ..))
      cases radix with
      | hexadecimal =>
          exact yields_choice (yields_hit_seq (literal_hit ['#', 'x'] _ _ _) hdigits)
      | decimal =>
          have hx : ¬ ['#', 'x'] <+: '#' :: (digits.chars ++ ';' :: rest) := fun h =>
            (digits.ends (not_beq (by decide)) _).not_begins [] (List.cons_prefix_cons.1 h).2
          exact yields_choice_right (seq_miss (literal_miss hx _ _))
            (yields_hit_seq (char_hit ..) hdigits)

theorem Reference.ends {accept : Char → Bool} (h : accept '&' = false) (r : Reference)
    (rest : List Char) : Ends accept (r.write ++ rest) := by
  cases r <;> exact ends_cons h

theorem Reference.length_write_pos (r : Reference) : 0 < r.write.length := by
  cases r <;> simp [write]

/-! ### Attribute values -/

theorem plain_quoted (quote : Quote) :
    (CharSet.inverse ("<&" ++ quote.mark.toString)).contains = quote.isPlain := by
  have hsingles : (CharSet.inverse ("<&" ++ quote.mark.toString)).ranges =
      ['<', '&', quote.mark].map fun c => (c, c) := by
    cases quote <;> rfl
  funext c
  rw [contains_singles _ hsingles, Quote.isPlain, Bool.eq_iff_iff, Bool.and_eq_true, isPlain_iff]
  simp only [CharSet.inverse, CharSet.ofSource, List.contains_cons, List.contains_nil, Bool.or_false,
    bne_iff_ne, ne_eq, Bool.not_eq_true]
  simp
  tauto

/-- A piece of a value between quotes. -/
abbrev quotedPiece (call : Rules σ) (quote : Quote) : Reader Value (Receiver σ) :=
  (action (fun ctx => appendText (matched ctx) ctx)
    (plus .nothing (oneChar quote.isPlain))).choice (action appendReference (reading call "Reference"))

theorem quotedPiece_reference {k : Nat} (hk : 2 ≤ k) (quote : Quote) (r : Reference)
    (before rest : List Char) (u : Receiver σ) :
    (quotedPiece (reader k) quote (r.write ++ rest) (valueFrame before) u).Yields r.fault? rest
      (valueFrame (before ++ [r.character])) u := by
  have hplain : Ends quote.isPlain (r.write ++ rest) := r.ends (by cases quote <;> decide) rest
  exact yields_choice_right (action_miss (plus_miss (oneChar_miss hplain _ _)))
    (yields_action (yields_nonterminal rfl (r.reads hk rest u)) fun text =>
      appendReference_of before r.character text u)

/-- What stands between quotes is read piece by piece. -/
theorem quotedPieces_read {k : Nat} (hk : 2 ≤ k) {quote : Quote}
    (pieces : Interspersed quote.isPlain Reference) (before rest : List Char) (u : Receiver σ) :
    (iterate (quotedPiece (reader k) quote) (pieces.flatMap id Reference.write ++ quote.mark :: rest)
      (valueFrame before) u).Yields
        (firstFault? (pieces.flatMap (fun _ => []) fun r => [r])) (quote.mark :: rest)
        (valueFrame (before ++ pieces.flatMap id fun r => [r.character])) u := by
  have hrun (run : Run quote.isPlain) (before rest : List Char) (hrest : Ends quote.isPlain rest) :
      iterate (quotedPiece (reader k) quote) (run.chars ++ rest) (valueFrame before) u =
        iterate (quotedPiece (reader k) quote) rest (valueFrame (before ++ run.chars)) u :=
    iterate_run (fun hne => choice_hit (action_hit (plus_oneChar run.valid hne hrest _ u)
      (appendMatched_of before run.chars u))) fun hnil => ⟨by rw [hnil, List.append_nil], rfl⟩
  induction pieces generalizing before with
  | last run =>
      have hmark : Ends quote.isPlain (quote.mark :: rest) :=
        ends_cons (by cases quote <;> decide)
      have hreference : Ends (· == '&') (quote.mark :: rest) :=
        ends_cons (by cases quote <;> decide)
      refine (hrun run before _ hmark).trans (iterate_miss (choice_right
        (action_miss (plus_miss (oneChar_miss hmark _ u)))
        (action_miss (nonterminal_miss rfl (reader_reference_miss (by omega) hreference u)))))
  | more run r pieces ih =>
      simp only [Interspersed.flatMap, id_eq, List.append_assoc, List.nil_append,
        firstFault?_append, firstFault?_singleton]
      rw [hrun run before _ (r.ends (by cases quote <;> decide) _)]
      refine yields_iterate r.length_write_pos (quotedPiece_reference hk quote r _ _ u) ?_
      have hrest := ih (before ++ run.chars ++ [r.character])
      simpa only [List.append_assoc] using hrest

theorem readQuoted_reads {k : Nat} (hk : 2 ≤ k) (v : AttributeValue) (rest : List Char)
    (u : Receiver σ) :
    (readQuoted (reader k) v.quote.mark (v.write ++ rest) ((Frame.ofLocals []).bindInherited [] [])
      u).Yields (firstFault? v.references) rest (valueFrame v.text) u := by
  have hwritten : v.write ++ rest =
      v.quote.mark :: (v.pieces.flatMap id Reference.write ++ v.quote.mark :: rest) := by
    simp [AttributeValue.write]
  have hopen (text : List Char) : action (setText "") (oneChar (· == v.quote.mark))
      (v.quote.mark :: text) ((Frame.ofLocals []).bindInherited [] []) u =
        .hit text (valueFrame []) u :=
    action_any (char_hit ..) fun _ => rfl
  unfold readQuoted
  rw [plain_quoted, hwritten, star_nothing]
  exact yields_hit_seq (hopen _) (yields_seq_hit (quotedPieces_read hk v.pieces [] rest u)
    (requiredChar_hit ..))

theorem AttributeValue.reads {k : Nat} (hk : 3 ≤ k) (v : AttributeValue) (rest : List Char)
    (u : Receiver σ) :
    (reader k "AttributeValue" [] (v.write ++ rest) u).Yields (firstFault? v.references) rest
      (some (.text (.ofList v.text))) u := by
  obtain ⟨k, rfl⟩ := Nat.exists_eq_add_of_le' hk
  have hquoted := readQuoted_reads (k := k + 2) (by omega) v rest u
  rw [show k + 3 = (k + 2) + 1 from rfl, reader_succ]
  refine yields_activation_value (g := valueFrame v.text) ?_ rfl
  obtain ⟨quote, pieces⟩ := v
  cases quote with
  | double => exact yields_choice hquoted
  | single =>
      have hdouble : Ends (· == '"') ((⟨.single, pieces⟩ : AttributeValue).write ++ rest) :=
        ends_cons (c := '\x27') (by decide)
      exact yields_choice_right (seq_miss (action_miss (oneChar_miss hdouble _ u))) hquoted

end AttrGrammar.Xml

import AttrGrammar.Proofs.CppLexemes
import AttrGrammar.Proofs.CppRules
import AttrGrammar.Proofs.ReadingSteps

/-! Reading single lexemes. Words, numbers, keywords and marks are read exactly where the first lexeme
of the text is one, and then as far as it goes; operators are tried in an order in which a longer one
comes before the one that it begins with. -/

namespace AttrGrammar.Cpp
open Text Peg
open Reader

variable {w : List Char}

theorem behindLexeme_eq {front rest : List Char} (h : firstLexeme (front ++ rest) = front) :
    behindLexeme (front ++ rest) = rest := by
  unfold behindLexeme
  rw [h, List.drop_left]

@[simp]
theorem consumed_behindLexeme (w : List Char) : consumed w (behindLexeme w) = firstLexeme w := by
  have hconsumed := consumed_append (firstLexeme w) (behindLexeme w)
  rwa [firstLexeme_append] at hconsumed

theorem behindLexeme_word {c : Char} (hc : isIdStart c) (w : List Char) :
    behindLexeme (c :: w) = w.dropWhile isIdCont := by
  have hsplit := firstLexeme_append (c :: w)
  rw [firstLexeme_word hc, List.cons_append] at hsplit
  have hrest := (List.cons.inj hsplit).2.trans
    (List.takeWhile_append_dropWhile (p := isIdCont)).symm
  exact List.append_cancel_left hrest

theorem behindLexeme_number {c : Char} (hc : c.isDigit) (w : List Char) :
    behindLexeme (c :: w) = w.dropWhile Char.isDigit := by
  have hsplit := firstLexeme_append (c :: w)
  rw [firstLexeme_number hc, List.cons_append] at hsplit
  have hrest := (List.cons.inj hsplit).2.trans
    (List.takeWhile_append_dropWhile (p := Char.isDigit)).symm
  exact List.append_cancel_left hrest

/-! ### Words -/

theorem readWord_eq (w : List Char) (f : Frame Value) (u : Unit) :
    readWord w f u = if w.head?.any isIdStart then .hit (behindLexeme w) f u else .miss f u := by
  cases w with
  | nil => rfl
  | cons c w =>
      show _ = if isIdStart c then _ else _
      by_cases hc : isIdStart c
      · have hfirst : oneChar CharClass.idStart.admits (c :: w) f u = .hit w f u := if_pos hc
        rw [if_pos hc, behindLexeme_word hc]
        exact (seq_hit hfirst).trans (star_oneChar_eq isIdCont w f u)
      · have hfirst : oneChar CharClass.idStart.admits (c :: w) f u = .miss f u := if_neg hc
        rw [if_neg hc]
        exact seq_miss hfirst

/-- A name is a word that is no keyword. -/
theorem readName_eq (args : List Value) (w : List Char) (u : Unit) :
    readName args w u =
      if w.head?.any isIdStart ∧ String.ofList (firstLexeme w) ∉ keywords then
        .hit (behindLexeme w) (some (.expression (.identifier (String.ofList (firstLexeme w))))) u
      else .miss () u := by
  by_cases hword : w.head?.any isIdStart
  · have hread (f : Frame Value) : readWord w f u = .hit (behindLexeme w) f u := by
      rw [readWord_eq, if_pos hword]
    have hkeyword (f : Frame Value) : keywordList readWord keywords w f u =
        if String.ofList (firstLexeme w) ∈ keywords then .hit (behindLexeme w) f u
        else .miss f u := by
      rw [keywordList, hread, Outcome.andThen_hit, consumed_behindLexeme]
    by_cases hreserved : String.ofList (firstLexeme w) ∈ keywords
    · rw [if_neg fun h => h.2 hreserved]
      exact activation_miss (action_miss (difference_miss (hread _)
        ((hkeyword _).trans (if_pos hreserved)) (Nat.le_refl _)))
    · rw [if_pos ⟨hword, hreserved⟩]
      refine activation_value (action_consumed (difference_hit (hread _)
        ((hkeyword _).trans (if_neg hreserved))) rfl) ?_
      show some (Value.expression (.identifier (String.ofList (wholeText _).toList))) = _
      rw [consumed_behindLexeme, toList_wholeText]
  · rw [if_neg fun h => hword h.1]
    have hread (f : Frame Value) : readWord w f u = .miss f u := by
      rw [readWord_eq, if_neg hword]
    have hmiss (f : Frame Value) :
        difference readWord (keywordList readWord keywords) w f u = .miss f u := by
      rw [difference, hread, Outcome.andThen_miss]
    exact activation_miss (action_miss (hmiss _))

theorem keywords_spec : ∀ word ∈ keywords,
    word.toList.head?.any isIdStart ∧ word.toList.tail.all isIdCont := by decide

/-- A keyword stands where the first lexeme is this word. -/
theorem readKeyword_eq {word : String} (hword : word ∈ keywords) (w : List Char) (f : Frame Value)
    (u : Unit) :
    readKeyword word w f u =
      if firstLexeme w = word.toList then .hit (behindLexeme w) f u else .miss f u := by
  obtain ⟨hstart, hcont⟩ := keywords_spec word hword
  obtain ⟨c, t, hchars⟩ := List.exists_cons_of_ne_nil (l := word.toList)
    (by intro h; rw [h] at hstart; cases hstart)
  rw [hchars] at hstart hcont
  have hcont : ∀ d ∈ t, isIdCont d := List.all_eq_true.1 hcont
  unfold readKeyword
  rw [hchars]
  by_cases hbegins : c :: t <+: w
  · obtain ⟨rest, rfl⟩ := hbegins
    have hbehind : behindLexeme (c :: (t ++ rest)) = rest.dropWhile isIdCont := by
      rw [behindLexeme_word hstart, List.dropWhile_append_of_pos hcont]
    have hfirst : firstLexeme (c :: (t ++ rest)) = c :: (t ++ rest.takeWhile isIdCont) := by
      rw [firstLexeme_word hstart, List.takeWhile_append_of_pos hcont]
    show keyword (c :: t) (oneChar isIdCont) (c :: t ++ rest) f u =
      if firstLexeme (c :: (t ++ rest)) = c :: t then .hit (behindLexeme (c :: (t ++ rest))) f u
      else .miss f u
    rw [hfirst, hbehind]
    cases rest with
    | nil => exact (keyword_hit rfl).trans (if_pos (by simp)).symm
    | cons d rest =>
        by_cases hd : isIdCont d
        · rw [if_neg (by simp [hd])]
          exact keyword_miss (if_pos hd)
        · rw [if_pos (by simp [hd]), List.dropWhile_cons_of_neg hd]
          exact keyword_hit (if_neg hd)
  · rw [keyword, literal_miss hbegins, Outcome.andThen_miss, if_neg]
    intro h
    exact hbegins (h ▸ firstLexeme_begins w)

/-! ### Numbers -/

theorem readInteger_of (f : Frame Value) (text : List Char) (u : Unit) :
    Context.readInteger (.of f text u) =
      if numeral 10 text ≤ maxInteger then
        .of (f.setValue (.expression (.integer (numeral 10 text)))) text u
      else (ActionContext.of f text u).raise
        s!"integer literal '{String.ofList text}' is out of range" := by
  have htext : toString (ActionContext.of f text u).text = String.ofList text :=
    congrArg String.ofList (toList_wholeText text)
  unfold Context.readInteger
  dsimp only
  rw [htext, show (ActionContext.of f text u).text.toList = text from toList_wholeText text]
  rfl

/-- A number is read as far as its digits go, and has to be in range. -/
theorem readNumber_eq (args : List Value) (w : List Char) (u : Unit) :
    readNumber args w u =
      if w.head?.any Char.isDigit then
        if numeral 10 (firstLexeme w) ≤ maxInteger then
          .hit (behindLexeme w) (some (.expression (.integer (numeral 10 (firstLexeme w))))) u
        else .stop (.raised s!"integer literal '{String.ofList (firstLexeme w)}' is out of range") u
      else .miss () u := by
  cases w with
  | nil => rfl
  | cons c w =>
      show _ = if c.isDigit then _ else _
      by_cases hc : c.isDigit
      · have hread (f : Frame Value) : plus .nothing (oneChar CharClass.digit.admits) (c :: w) f u =
            .hit (behindLexeme (c :: w)) f u := by
          have hplus := plus_oneChar_eq Char.isDigit (c :: w) f u
          rw [List.dropWhile_cons_of_pos hc, ← behindLexeme_number hc] at hplus
          exact hplus.trans (if_pos hc)
        rw [if_pos hc]
        unfold readNumber activation action
        rw [hread, Outcome.andThen_hit, consumed_behindLexeme, readInteger_of]
        by_cases hrange : numeral 10 (firstLexeme (c :: w)) ≤ maxInteger
        · rw [if_pos hrange, if_pos hrange]
          rfl
        · rw [if_neg hrange, if_neg hrange]
          rfl
      · have hread (f : Frame Value) : plus .nothing (oneChar CharClass.digit.admits) (c :: w) f u =
            .miss f u := (plus_oneChar_eq Char.isDigit (c :: w) f u).trans (if_neg hc)
        rw [if_neg hc]
        exact activation_miss (action_miss (hread _))

/-! ### Marks -/

/-- A mark is read where it is the first lexeme, unless a longer one begins with it. -/
theorem literal_mark_eq {t w : List Char} (ht : t ∈ marks)
    (hlongest : t <+: firstLexeme w → firstLexeme w = t) (f : Frame Value) (u : Unit) :
    (literal t : Reader Value Unit) w f u =
      if firstLexeme w = t then .hit (behindLexeme w) f u else .miss f u := by
  by_cases h : firstLexeme w = t
  · rw [if_pos h]
    have hread := literal_hit (V := Value) (firstLexeme w) (behindLexeme w) f u
    rwa [firstLexeme_append, h] at hread
  · rw [if_neg h]
    exact literal_miss (mt (mark_prefix_iff ht hlongest).1 h) f u

theorem oneChar_eq_literal (c : Char) :
    (oneChar (· == c) : Reader Value Unit) = literal [c] := by
  funext w f u
  cases w with
  | nil => rfl
  | cons d w =>
      rw [oneChar_cons, literal]
      by_cases h : d = c
      · simp [h]
      · simp [h, Ne.symm h]

/-- An exclamation mark with no equals sign behind it is a lexeme. -/
theorem readNot_eq {w : List Char} (hw : firstLexeme w ≠ "!=".toList) (f : Frame Value) (u : Unit) :
    (oneChar (· == '!') : Reader Value Unit) w f u =
      if firstLexeme w = ['!'] then .hit (behindLexeme w) f u else .miss f u := by
  have hmarks : ∀ l ∈ marks, ['!'] <+: l → l = ['!'] ∨ l = "!=".toList := by decide
  have hmark : ['!'] ∈ marks := by decide
  rw [oneChar_eq_literal]
  refine literal_mark_eq hmark (fun hbegins => ?_) f u
  have hfirst := firstLexeme_mark hmark (hbegins.trans (firstLexeme_begins w))
  exact (hmarks _ hfirst.2 hbegins).resolve_right hw

theorem symbol_mem_marks (op : BinaryOp) : op.symbol.toList ∈ marks := by
  cases op <;> decide

/-- Of the operators, the first one that the lexeme begins with is the lexeme itself. -/
def Picks (operators : List BinaryOp) (l : List Char) : Prop :=
  ∀ op ∈ operators.find? (·.symbol.toList.isPrefixOf l), op.symbol.toList = l

instance (operators : List BinaryOp) (l : List Char) : Decidable (Picks operators l) :=
  inferInstanceAs (Decidable (∀ op ∈ _, _))

/-- An operator is read where the first lexeme is one of them. -/
theorem readOperator_eq {operators : List BinaryOp} {w : List Char}
    (hpicks : Picks operators (firstLexeme w)) (f : Frame Value) (u : Unit) :
    readOperator operators w f u =
      match operators.find? (·.symbol.toList == firstLexeme w) with
      | some op => .hit (behindLexeme w) (f.setLocal "op" (.operator op)).2 u
      | none => .miss f u := by
  induction operators with
  | nil => rfl
  | cons op operators ih =>
      by_cases hbegins : op.symbol.toList <+: firstLexeme w
      · have hop : op.symbol.toList = firstLexeme w := by
          exact hpicks op (List.find?_cons_of_pos (List.isPrefixOf_iff_prefix.2 hbegins))
        have hread : literal op.symbol.toList w f u = .hit (behindLexeme w) f u := by
          have hliteral := literal_hit (V := Value) (firstLexeme w) (behindLexeme w) f u
          rwa [firstLexeme_append, ← hop] at hliteral
        rw [List.find?_cons_of_pos (by rw [hop]; exact beq_self_eq_true _)]
        exact choice_hit (action_any hread fun _ => rfl)
      · have hmiss : ¬ op.symbol.toList <+: w :=
          fun h => hbegins (firstLexeme_mark (symbol_mem_marks op) h).1
        have hne : (op :: operators).find? (·.symbol.toList == firstLexeme w) =
            operators.find? (·.symbol.toList == firstLexeme w) := by
          refine List.find?_cons_of_neg fun h => hbegins ?_
          rw [beq_iff_eq.1 h]
        have htail : Picks operators (firstLexeme w) := by
          intro op' hop'
          have hskip : (op :: operators).find? (·.symbol.toList.isPrefixOf (firstLexeme w)) =
              operators.find? (·.symbol.toList.isPrefixOf (firstLexeme w)) :=
            List.find?_cons_of_neg (mt List.isPrefixOf_iff_prefix.1 hbegins)
          exact hpicks op' (hskip.trans hop')
        rw [hne]
        exact choice_right (action_miss (literal_miss hmiss f u)) (ih htail)

/-- Where no operator stands there is nothing to pick from. -/
theorem picks_of_marks {operators : List BinaryOp}
    (h : ∀ l ∈ marks, l ≠ "/*".toList → Picks operators l) {w : List Char} (hw : Settled w) :
    Picks operators (firstLexeme w) := by
  intro op hop
  have hbegins : op.symbol.toList <+: firstLexeme w := List.isPrefixOf_iff_prefix.1 <|
    List.find?_some (p := fun op : BinaryOp => op.symbol.toList.isPrefixOf (firstLexeme w)) hop
  have hmark := firstLexeme_mark (symbol_mem_marks op) (hbegins.trans (firstLexeme_begins w))
  exact h _ hmark.2 (mt comment_prefix_iff.2 hw.comment) op hop

end AttrGrammar.Cpp

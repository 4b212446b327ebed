import AttrGrammar.Proofs.Columns
import Mathlib.Data.List.TakeWhile

/-! Excerpts. The column of an error is counted from the last line feed in front of it, while the
source line that is shown ends already at a carriage return. So the source line comes up to the
place, and the caret below it stands under the column, as long as no carriage return stands between
that line feed and the place. Where one does, the source line ends at the first of them and the caret
stands under its end. -/

namespace AttrGrammar.Parse
open Text Scan Peg Relation

variable {V W : Type}

namespace Location

variable {l : Location}

/-- The text in front of the place, back to the last line feed. -/
def front (l : Location) : List Char := (l.before.takeWhile (· != '\n')).reverse

/-- What stands below a character of the source line in front of the caret. -/
def blank (c : Char) : Char := if c = '\t' then '\t' else ' '

theorem length_front (l : Location) : l.front.length = l.indentation := List.length_reverse

theorem lineFeed_not_mem_front (l : Location) : '\n' ∉ l.front := by
  intro hmem
  have htaken : '\n' ∈ l.before.takeWhile (· != '\n') := List.mem_reverse.1 hmem
  exact absurd (List.mem_takeWhile_imp htaken) (by decide)

/-- In front of the text on the line stands nothing, or a line feed. -/
theorem exists_append_front (l : Location) : ∃ above,
    l.text.toList.take l.startOffset = above ++ l.front ∧
      (above = [] ∨ above.getLast? = some '\n') := by
  have hbefore : l.text.toList.take l.startOffset = l.before.reverse := by
    rw [before, List.reverse_reverse, Array.toList_extract, List.extract_eq_take_drop,
      Nat.sub_zero, List.drop_zero]
  refine ⟨(l.before.dropWhile (· != '\n')).reverse, ?_, ?_⟩
  · rw [hbefore, front, ← List.reverse_append, List.takeWhile_append_dropWhile]
  · cases hrest : l.before.dropWhile (· != '\n') with
    | nil => exact .inl rfl
    | cons c rest =>
      have hc := List.head_dropWhile_not (l := l.before) (· != '\n') (by rw [hrest]; simp)
      simp only [hrest, List.head_cons, bne_eq_false_iff_eq] at hc
      rw [hc]
      exact .inr (by simp)

theorem length_above {above : List Char}
    (h : l.text.toList.take l.startOffset = above ++ l.front) :
    above.length + l.indentation = l.startOffset := by
  have hlength := congrArg List.length h
  have hle : l.startOffset ≤ l.text.size := Nat.min_le_right _ _
  rw [List.length_take, Array.length_toList, List.length_append, length_front] at hlength
  omega

/-- From the start of the line on there is the text in front of the place and the text behind it. -/
theorem drop_lineStart (l : Location) : l.text.toList.drop (l.startOffset - l.indentation) =
    l.front ++ l.text.toList.drop l.startOffset := by
  obtain ⟨above, habove, -⟩ := l.exists_append_front
  have hlength : above.length = l.startOffset - l.indentation :=
    Nat.eq_sub_of_add_eq (length_above habove)
  calc l.text.toList.drop (l.startOffset - l.indentation)
      = (l.text.toList.take l.startOffset ++ l.text.toList.drop l.startOffset).drop
          above.length := by rw [List.take_append_drop, hlength]
    _ = (above ++ (l.front ++ l.text.toList.drop l.startOffset)).drop above.length := by
        rw [habove, List.append_assoc]
    _ = l.front ++ l.text.toList.drop l.startOffset := List.drop_left

/-- The part of the line that is shown in front of the place: nothing from a carriage return on. -/
def shown (l : Location) : List Char := l.front.takeWhile (· != '\r')

theorem shown_eq_front_iff (l : Location) : l.shown = l.front ↔ '\r' ∉ l.front := by
  rw [shown, List.takeWhile_eq_self_iff]
  constructor
  · exact fun hall hmem => absurd (hall _ hmem) (by decide)
  · exact fun hnot c hc => bne_iff_ne.2 fun heq => hnot (heq ▸ hc)

theorem length_shown_lt {l : Location} (h : '\r' ∈ l.front) : l.shown.length < l.front.length := by
  have hprefix : l.shown <+: l.front := List.takeWhile_prefix _
  apply Nat.lt_of_le_of_ne hprefix.length_le
  intro hlength
  exact (l.shown_eq_front_iff.1 (List.IsPrefix.eq_of_length hprefix hlength)) h

/-- Without a line feed only a carriage return ends a line. -/
theorem takeWhile_line {w : List Char} (hw : '\n' ∉ w) :
    (w.takeWhile fun c => c != '\n' && c != '\r') = w.takeWhile (· != '\r') := by
  induction w with
  | nil => rfl
  | cons c w ih =>
    have hc : (c != '\n') = true := bne_iff_ne.2 fun heq => hw (heq ▸ List.mem_cons_self)
    have hrest := ih fun hmem => hw (List.mem_cons_of_mem c hmem)
    rw [List.takeWhile_cons, List.takeWhile_cons, hc, Bool.true_and, hrest]

/-- The source line begins with what is shown in front of the place, and goes on behind the place
only if all that stands in front of it is shown. -/
theorem sourceLine_cases (l : Location) :
    ('\r' ∉ l.front ∧ l.front <+: l.sourceLine) ∨ ('\r' ∈ l.front ∧ l.sourceLine = l.shown) := by
  have hline : l.sourceLine = (l.front ++ l.text.toList.drop l.startOffset).takeWhile
      fun c => c != '\n' && c != '\r' := by
    rw [sourceLine, Array.toList_extract, List.extract_eq_take_drop, ← drop_lineStart,
      List.take_of_length_le (by simp)]
  have hfront : (l.front.takeWhile fun c => c != '\n' && c != '\r') = l.shown :=
    takeWhile_line l.lineFeed_not_mem_front
  rw [List.takeWhile_append, hfront] at hline
  by_cases hreturn : '\r' ∈ l.front
  · rw [if_neg (Nat.ne_of_lt (length_shown_lt hreturn))] at hline
    exact .inr ⟨hreturn, hline⟩
  · rw [l.shown_eq_front_iff.2 hreturn, if_pos rfl] at hline
    refine .inl ⟨hreturn, ?_⟩
    rw [hline]
    exact List.prefix_append _ _

theorem column_sub_one (l : Location) : l.column - 1 = l.front.length := by
  rw [length_front]
  exact Nat.add_sub_cancel _ _

/-- The source line comes up to the place unless a carriage return stands in front of it. -/
theorem le_length_sourceLine_iff (l : Location) :
    l.startOffset ≤ l.startOffset - l.indentation + l.sourceLine.length ↔ '\r' ∉ l.front := by
  obtain ⟨above, habove, -⟩ := l.exists_append_front
  have habove' := length_above habove
  rw [← length_front] at habove' ⊢
  obtain ⟨hnot, hprefix⟩ | ⟨hreturn, hline⟩ := l.sourceLine_cases
  · have hlength := hprefix.length_le
    exact iff_of_true (by omega) hnot
  · have hlength := length_shown_lt hreturn
    rw [hline]
    exact iff_of_false (by omega) fun hnot => hnot hreturn

/-- The caret stands behind as many blanks as characters are shown in front of the place. -/
theorem padding_eq (l : Location) : l.padding = l.shown.map blank := by
  show (l.sourceLine.take (l.column - 1)).map blank = _
  rw [column_sub_one]
  obtain ⟨hnot, hprefix⟩ | ⟨hreturn, hline⟩ := l.sourceLine_cases
  · rw [l.shown_eq_front_iff.2 hnot, ← List.prefix_iff_eq_take.1 hprefix]
  · rw [hline, List.take_of_length_le (Nat.le_of_lt (length_shown_lt hreturn))]

theorem length_padding_iff (l : Location) : l.padding.length = l.column - 1 ↔ '\r' ∉ l.front := by
  rw [padding_eq, List.length_map, column_sub_one]
  constructor
  · exact fun hlength hreturn => Nat.ne_of_lt (length_shown_lt hreturn) hlength
  · exact fun hnot => congrArg List.length (l.shown_eq_front_iff.2 hnot)

/-- What is shown in front of the place is the beginning of the source line. -/
theorem shown_prefix (l : Location) : l.shown <+: l.sourceLine := by
  obtain ⟨hnot, hprefix⟩ | ⟨-, hline⟩ := l.sourceLine_cases
  · rwa [l.shown_eq_front_iff.2 hnot]
  · rewrite [hline]
    exact List.prefix_refl _

end Location

/-- The excerpt of an error: its source line, and below it a caret behind one blank, or tab, for each
character shown in front of the place. The line comes up to the place, and the caret stands under the
column, exactly if there is no carriage return between the last line feed and the place. If there is
one, the line ends at the first of them, and so do the blanks. -/
theorem parseWithin_excerpts (d : Domain V W) (g : Grammar) (text : Buffer) (options : Options V)
    (fuel : Nat) (world : W) (e : ParseError) (location : Location)
    (he : (parseWithin fuel d g text options world).outcome = .error (.error e))
    (hlocation : e.location? = some location) :
    (∃ above, text.toList.take location.span.start = above ++ location.front ∧
      (above = [] ∨ above.getLast? = some '\n') ∧ '\n' ∉ location.front) ∧
    (location.span.start ≤ location.span.start - location.front.length +
      location.sourceLine.length ↔ '\r' ∉ location.front) ∧
    location.excerpt = String.ofList location.sourceLine ++ "\n" ++
      String.ofList ((location.front.takeWhile (· != '\r')).map Location.blank) ++ "^" ∧
    location.front.takeWhile (· != '\r') <+: location.sourceLine ∧
    ((location.front.takeWhile (· != '\r')).length = location.column - 1 ↔
      '\r' ∉ location.front) := by
  obtain ⟨past, hsurveyed, -⟩ := parseWithin_located d g text options fuel world
  obtain ⟨hlies, hplace, -⟩ := hsurveyed.error e location he hlocation
  have htext : location.text = text := by rw [hplace]; rfl
  have hstart : location.startOffset = location.span.start :=
    Nat.min_eq_left (by rw [htext]; exact Nat.le_trans hlies.start_le hlies.stop_le)
  obtain ⟨above, habove, hline⟩ := location.exists_append_front
  rw [htext, hstart] at habove
  have hreaches := location.le_length_sourceLine_iff
  rw [hstart, ← location.length_front] at hreaches
  have hcaret := location.length_padding_iff
  rw [location.padding_eq, List.length_map] at hcaret
  refine ⟨⟨above, habove, hline, location.lineFeed_not_mem_front⟩, hreaches, ?_,
    location.shown_prefix, hcaret⟩
  rw [Location.excerpt, location.padding_eq]
  rfl

/-- A rule that matches two letters with a carriage return between them, and then insists on a third
one. -/
def returnGrammar : GrammarDecl Unit Unit where
  name := "returns"
  start := some "lines"
  rules := [{ name := "lines",
              definition := .sequence (.literal "a\rb") (.expectation (.char 'c')) }]

def returnDomain : Domain Unit Unit := Domain.build {} [returnGrammar]

def returns : Grammar := returnDomain.grammars[0]?.get (by decide +kernel)

/-- The error of that rule at the end of a text that consists of the first two letters. -/
def returnError : Location := ⟨"", ⟨0, 3, 3, 1, 1⟩, #['a', '\r', 'b']⟩

theorem parse_returns : (parse returnDomain returns #['a', '\r', 'b'] {} ()).outcome =
    .error (.error (.expectation "'c'" returnError)) := by
  rfl

/-- That error is shown in this way. -/
theorem parseWithin_excerpts_return :
    (parse returnDomain returns #['a', '\r', 'b'] {} ()).outcome =
      .error (.error (.expectation "'c'" returnError)) ∧
    returnError.excerpt = String.ofList returnError.sourceLine ++ "\n" ++
      String.ofList ((returnError.front.takeWhile (· != '\r')).map Location.blank) ++ "^" :=
  ⟨parse_returns, (parseWithin_excerpts _ _ _ _ _ _ _ returnError parse_returns rfl).2.2.1⟩

/-- The error lies in column four, but only the first letter is shown, and the caret stands behind a
single blank. -/
theorem excerpt_return_cut :
    (parse returnDomain returns #['a', '\r', 'b'] {} ()).outcome =
      .error (.error (.expectation "'c'" returnError)) ∧
    returnError.column = 4 ∧ returnError.sourceLine = ['a'] ∧ returnError.padding = [' '] ∧
    ¬ returnError.span.start ≤ returnError.startOffset - returnError.indentation +
      returnError.sourceLine.length ∧
    returnError.padding.length ≠ returnError.column - 1 ∧ returnError.excerpt = "a\n ^" :=
  ⟨parse_returns, by decide, by decide, by decide, by decide, by decide, by decide⟩

end AttrGrammar.Parse

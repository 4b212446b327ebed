import AttrGrammar.Peg.CharSet
import Mathlib.Data.List.Basic

/-! Set expressions as a way to write down ranges. A backslash and a dash have to be protected by a
backslash; every other character, also one that a backslash would turn into a control, stands for
itself. Whatever ranges are written one behind the other in this way, exactly they are read again: the
dash between the ends of a range is the only one that no backslash stands before. -/

namespace AttrGrammar.Peg

/-- The characters that mean something else in a set expression. -/
def IsSetMark (c : Char) : Prop := c = '\\' ∨ c = '-'

instance (c : Char) : Decidable (IsSetMark c) := inferInstanceAs (Decidable (_ ∨ _))

/-- A character as it is written in a set expression. -/
def setSpelling (c : Char) : List Char := if IsSetMark c then ['\\', c] else [c]

/-- A range as it is written: one character if it has no others, and otherwise both ends. -/
def rangeSpelling (r : Char × Char) : List Char :=
  if r.1 = r.2 then setSpelling r.1 else setSpelling r.1 ++ '-' :: setSpelling r.2

/-- The set expression that has these ranges one behind the other. -/
def setExpression (ranges : List (Char × Char)) : String :=
  String.ofList (ranges.flatMap rangeSpelling)

/-! ### Characters -/

/-- The unit that the spelling of a character is read as. -/
def spelledUnit (c : Char) : SetUnit := ⟨c, decide (IsSetMark c)⟩

theorem spelledUnit_ne_dash (c : Char) : spelledUnit c ≠ ⟨'-', false⟩ := by
  intro h
  obtain ⟨rfl, hmark⟩ := SetUnit.mk.inj h
  exact of_decide_eq_false hmark (.inr rfl)

theorem setUnits_of_ne {c : Char} (hc : c ≠ '\\') (w : List Char) :
    setUnits (c :: w) = ⟨c, false⟩ :: setUnits w :=
  setUnits.eq_4 c w (fun h _ => hc h) fun _ _ h _ => hc h

theorem setUnits_setSpelling (c : Char) (w : List Char) :
    setUnits (setSpelling c ++ w) = spelledUnit c :: setUnits w := by
  unfold setSpelling spelledUnit
  split
  · next hmark =>
    rw [decide_eq_true hmark]
    obtain rfl | rfl := hmark
    · rfl
    · rfl
  · next hplain =>
    rw [decide_eq_false hplain]
    exact setUnits_of_ne (fun h => hplain (.inl h)) w

/-! ### Ranges -/

def rangeUnits (r : Char × Char) : List SetUnit :=
  if r.1 = r.2 then [spelledUnit r.1] else [spelledUnit r.1, ⟨'-', false⟩, spelledUnit r.2]

theorem setUnits_rangeSpelling (r : Char × Char) (w : List Char) :
    setUnits (rangeSpelling r ++ w) = rangeUnits r ++ setUnits w := by
  unfold rangeSpelling rangeUnits
  split
  · exact setUnits_setSpelling r.1 w
  · rw [List.append_assoc, setUnits_setSpelling, List.cons_append, setUnits_of_ne (by decide),
      setUnits_setSpelling]
    rfl

theorem setUnits_flatMap (ranges : List (Char × Char)) :
    setUnits (ranges.flatMap rangeSpelling) = ranges.flatMap rangeUnits := by
  induction ranges with
  | nil => rfl
  | cons r ranges ih =>
    rw [List.flatMap_cons, List.flatMap_cons, setUnits_rangeSpelling, ih]

theorem unitRanges_single {unit : SetUnit} {units : List SetUnit}
    (h : units.head? ≠ some ⟨'-', false⟩) :
    unitRanges (unit :: units) = (unit.char, unit.char) :: unitRanges units := by
  refine unitRanges.eq_3 unit units ?_
  rintro last rest rfl
  exact h rfl

theorem head?_rangeUnits (r : Char × Char) :
    (rangeUnits r).head? = some (spelledUnit r.1) := by
  unfold rangeUnits
  split <;> rfl

/-- Behind a range no dash is left that could join it to the next one. -/
theorem head?_flatMap_rangeUnits (ranges : List (Char × Char)) :
    (ranges.flatMap rangeUnits).head? ≠ some ⟨'-', false⟩ := by
  cases ranges with
  | nil => exact nofun
  | cons r ranges =>
    rw [List.flatMap_cons, List.head?_append, head?_rangeUnits]
    exact fun h => spelledUnit_ne_dash r.1 (Option.some.inj h)

theorem unitRanges_rangeUnits {r : Char × Char} (hr : r.1 ≤ r.2) {units : List SetUnit}
    (h : units.head? ≠ some ⟨'-', false⟩) :
    unitRanges (rangeUnits r ++ units) = r :: unitRanges units := by
  obtain ⟨first, last⟩ := r
  unfold rangeUnits
  split
  · next hsame =>
    obtain rfl : first = last := hsame
    exact unitRanges_single h
  · show rangeBetween first last :: unitRanges units = _
    rw [rangeBetween, if_pos hr]

theorem unitRanges_flatMap {ranges : List (Char × Char)} (h : ∀ r ∈ ranges, r.1 ≤ r.2) :
    unitRanges (ranges.flatMap rangeUnits) = ranges := by
  induction ranges with
  | nil => rfl
  | cons r ranges ih =>
    obtain ⟨hr, hranges⟩ := List.forall_mem_cons.1 h
    rw [List.flatMap_cons, unitRanges_rangeUnits hr (head?_flatMap_rangeUnits ranges), ih hranges]

/-! ### Sets -/

theorem CharSet.contains_ofSource (source : String) (isInverse : Bool) (c : Char) :
    (ofSource source isInverse).contains c =
      ((ofSource source isInverse).ranges.any (fun r => r.1 ≤ c && c ≤ r.2) != isInverse) := rfl

/-- Set expressions can denote any ranges. The set that the expression of some ranges denotes has
exactly these ranges, in their order; it contains the characters that lie in one of them, and its
complement contains all others. -/
theorem setExpression_denotes {ranges : List (Char × Char)} (h : ∀ r ∈ ranges, r.1 ≤ r.2) :
    (CharSet.new (setExpression ranges)).ranges = ranges ∧
      (∀ c, (CharSet.new (setExpression ranges)).contains c ↔
        ∃ r ∈ ranges, r.1 ≤ c ∧ c ≤ r.2) ∧
      ∀ c, (CharSet.inverse (setExpression ranges)).contains c ↔
        ¬ ∃ r ∈ ranges, r.1 ≤ c ∧ c ≤ r.2 := by
  have hranges (isInverse : Bool) :
      (CharSet.ofSource (setExpression ranges) isInverse).ranges = ranges := by
    show unitRanges (setUnits (setExpression ranges).toList) = ranges
    rw [setExpression, String.toList_ofList, setUnits_flatMap, unitRanges_flatMap h]
  have hany (c : Char) : ranges.any (fun r => r.1 ≤ c && c ≤ r.2) ↔
      ∃ r ∈ ranges, r.1 ≤ c ∧ c ≤ r.2 := by
    simp only [List.any_eq_true, Bool.and_eq_true, decide_eq_true_eq]
  refine ⟨hranges false, fun c => ?_, fun c => ?_⟩
  · rw [CharSet.new, CharSet.contains_ofSource, hranges, Bool.bne_false, hany]
  · rw [CharSet.inverse, CharSet.contains_ofSource, hranges, Bool.bne_true, Bool.not_eq_true', ← hany,
      Bool.not_eq_true]

/-- A range up to the dash, a dash, a range from the backslash to a letter that stands for a control
behind a backslash. -/
theorem setExpression_denotes_marks :
    (∀ r ∈ [('!', '-'), ('-', '-'), ('\\', 'n')], r.1 ≤ r.2) ∧
      (CharSet.new "!-\\-\\-\\\\-n").ranges = [('!', '-'), ('-', '-'), ('\\', 'n')] := by
  have hordered : ∀ r ∈ [('!', '-'), ('-', '-'), ('\\', 'n')], r.1 ≤ r.2 := by decide
  exact ⟨hordered, (setExpression_denotes hordered).1⟩

end AttrGrammar.Peg

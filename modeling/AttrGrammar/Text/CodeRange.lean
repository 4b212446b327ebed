/-! Sets of code points written as ascending lists of closed ranges, the form in which the character
property tables are kept. -/

namespace AttrGrammar.Text

/-- The code points from the first number up to and including the second. -/
abbrev CodeRange := Nat × Nat

/-- Whether a code point lies in one of the ranges. The list is ascending, so the search stops at
the first range that begins beyond the code point. -/
def inRanges : List CodeRange → Nat → Bool
  | [], _ => false
  | (lo, hi) :: rest, n => lo ≤ n && (n ≤ hi || inRanges rest n)

/-- Every range begins beyond `bound`, is in order inside, and ends before the next one begins. -/
def AscendingFrom : Nat → List CodeRange → Prop
  | _, [] => True
  | bound, (lo, hi) :: rest => bound ≤ lo ∧ lo ≤ hi ∧ AscendingFrom hi rest

theorem AscendingFrom.le_of_mem {bound : Nat} {ranges : List CodeRange}
    (h : AscendingFrom bound ranges) : ∀ r ∈ ranges, bound ≤ r.1 := by
  induction ranges generalizing bound with
  | nil => simp
  | cons first rest ih =>
      obtain ⟨hfirst, horder, hrest⟩ := h
      intro r hr
      rcases List.mem_cons.1 hr with rfl | hr
      · exact hfirst
      · exact Nat.le_trans (Nat.le_trans hfirst horder) (ih hrest r hr)

/-- Stopping early loses nothing: the search agrees with membership in one of the ranges. -/
theorem inRanges_iff {bound : Nat} {ranges : List CodeRange} (h : AscendingFrom bound ranges)
    (n : Nat) : inRanges ranges n = true ↔ ∃ r ∈ ranges, r.1 ≤ n ∧ n ≤ r.2 := by
  induction ranges generalizing bound with
  | nil => simp [inRanges]
  | cons first rest ih =>
      obtain ⟨_, horder, hrest⟩ := h
      have hbeyond := hrest.le_of_mem
      simp only [inRanges, Bool.and_eq_true, Bool.or_eq_true, decide_eq_true_eq, ih hrest,
        List.mem_cons, exists_eq_or_imp]
      constructor
      · rintro ⟨hlo, hhi | hin⟩
        · exact Or.inl ⟨hlo, hhi⟩
        · exact Or.inr hin
      · rintro (⟨hlo, hhi⟩ | ⟨r, hr, hlo, hhi⟩)
        · exact ⟨hlo, Or.inl hhi⟩
        · exact ⟨Nat.le_trans horder (Nat.le_trans (hbeyond r hr) hlo), Or.inr ⟨r, hr, hlo, hhi⟩⟩

end AttrGrammar.Text

import AttrGrammar.Proofs.CppLexemes

/-! White space and comments as stretches of text. A comment ends where its mark first stands, or
with its line, and so whether a stretch is layout depends on what stands behind it. What is skipped
at the beginning of a text is the longest stretch there that is put together from white space and
comments. -/

namespace AttrGrammar.Cpp
open Text Peg

/-- A character of white space, or a comment, in front of a text. -/
inductive Piece : List Char → List Char → Prop where
  | blank {c : Char} (hc : isWhiteSpace c = true) (rest : List Char) : Piece [c] rest
  /-- A comment up to the end of its line, or of the text. -/
  | line {body rest : List Char} (hbody : '\n' ∉ body)
      (hend : rest = [] ∨ rest.head? = some '\n') : Piece ("//".toList ++ body) rest
  /-- A comment up to the first mark that closes it. -/
  | block {body : List Char} (hbody : ¬ "*/".toList <:+: body) (rest : List Char) :
      Piece ("/*".toList ++ body ++ "*/".toList) rest

/-- Pieces one after the other, in front of a text. -/
inductive Pieces : List Char → List Char → Prop where
  | nil (rest : List Char) : Pieces [] rest
  | cons {piece front rest : List Char} (hpiece : Piece piece (front ++ rest))
      (hfront : Pieces front rest) : Pieces (piece ++ front) rest

/-- The text begins with a comment that is never closed. -/
def Unclosed (w : List Char) : Prop :=
  ∃ body, w = "/*".toList ++ body ∧ ¬ "*/".toList <:+: body

/-! ### The first mark -/

/-- In front of the first mark there is none. -/
theorem exists_append_fromMark (w : List Char) :
    ∃ body, w = body ++ fromMark w ∧ ¬ "*/".toList <:+: body := by
  induction w with
  | nil => exact ⟨[], rfl, by simp⟩
  | cons c w ih =>
    unfold fromMark
    by_cases hmark : "*/".toList <+: c :: w
    · rw [if_pos hmark]
      exact ⟨[], rfl, by simp⟩
    · obtain ⟨body, hw, hbody⟩ := ih
      rw [if_neg hmark]
      refine ⟨c :: body, congrArg (c :: ·) hw, fun hinfix => ?_⟩
      obtain hfront | hinside := List.infix_cons_iff.1 hinfix
      · apply hmark
        rw [hw]
        exact hfront.trans (List.prefix_append (c :: body) (fromMark w))
      · exact hbody hinside

/-- The first mark of a text is the one that no other stands in front of. -/
theorem fromMark_append {body : List Char} (hbody : ¬ "*/".toList <:+: body) (rest : List Char) :
    fromMark (body ++ ("*/".toList ++ rest)) = "*/".toList ++ rest := by
  induction body with
  | nil => rfl
  | cons c body ih =>
    have hinside : ¬ "*/".toList <:+: body := fun h => hbody (List.infix_cons h)
    have hmark : ¬ "*/".toList <+: c :: (body ++ ("*/".toList ++ rest)) := by
      intro hprefix
      obtain ⟨rfl, hslash⟩ := List.cons_prefix_cons.1 hprefix
      cases body with
      | nil => exact absurd (List.cons_prefix_cons.1 hslash).1 (by decide)
      | cons d body =>
        obtain ⟨rfl, -⟩ := List.cons_prefix_cons.1 hslash
        exact hbody ⟨[], body, rfl⟩
    rw [List.cons_append, fromMark, if_neg hmark]
    exact ih hinside

/-- A text without a mark is all in front of one. -/
theorem fromMark_eq_nil_iff (w : List Char) : fromMark w = [] ↔ ¬ "*/".toList <:+: w := by
  constructor
  · intro hnone
    obtain ⟨body, hw, hbody⟩ := exists_append_fromMark w
    rw [hnone, List.append_nil] at hw
    rwa [hw]
  · intro hmark
    obtain hnone | ⟨rest, hrest⟩ := fromMark_cases w
    · exact hnone
    · obtain ⟨body, hw, -⟩ := exists_append_fromMark w
      rw [hrest] at hw
      exact absurd ⟨body, rest, by rw [hw, List.append_assoc]⟩ hmark

/-! ### Pieces -/

theorem dropWhile_line {body rest : List Char} (hbody : '\n' ∉ body)
    (hend : rest = [] ∨ rest.head? = some '\n') : (body ++ rest).dropWhile (· != '\n') = rest := by
  induction body with
  | nil =>
    obtain rfl | hhead := hend
    · rfl
    · obtain ⟨rest, rfl⟩ := List.head?_eq_some_iff.1 hhead
      rfl
  | cons c body ih =>
    have hc : (c != '\n') = true := by
      simpa using fun h : c = '\n' => hbody (h ▸ List.mem_cons_self)
    rw [List.cons_append, List.dropWhile_cons, if_pos hc]
    exact ih fun h => hbody (List.mem_cons_of_mem c h)

theorem slash_not_blank (w : List Char) : ¬ ('/' :: w).head?.any isWhiteSpace = true := by
  show ¬ isWhiteSpace '/' = true
  decide

/-- Behind a piece stands what it stands in front of. -/
theorem Piece.behindPiece_eq {piece rest : List Char} (h : Piece piece rest) :
    behindPiece (piece ++ rest) = some rest := by
  cases h with
  | blank hc => exact if_pos hc
  | @line body _ hbody hend =>
    have hdrop : ("//".toList ++ (body ++ rest)).dropWhile (· != '\n') = rest :=
      dropWhile_line hbody hend
    have hblank : ¬ ("//".toList ++ (body ++ rest)).head?.any isWhiteSpace = true :=
      slash_not_blank _
    have hline : "//".toList <+: "//".toList ++ (body ++ rest) := List.prefix_append _ _
    rw [List.append_assoc, behindPiece, if_neg hblank, if_pos hline, hdrop]
  | @block body hbody =>
    have htext : "/*".toList ++ body ++ "*/".toList ++ rest =
        "/*".toList ++ (body ++ ("*/".toList ++ rest)) := by simp only [List.append_assoc]
    have hblank :
        ¬ ("/*".toList ++ (body ++ ("*/".toList ++ rest))).head?.any isWhiteSpace = true :=
      slash_not_blank _
    have hblock : "/*".toList <+: "/*".toList ++ (body ++ ("*/".toList ++ rest)) :=
      List.prefix_append _ _
    have hline : ¬ "//".toList <+: "/*".toList ++ (body ++ ("*/".toList ++ rest)) := by
      intro hprefix
      have hslash := (List.cons_prefix_cons.1 hprefix).2
      exact absurd (List.cons_prefix_cons.1 hslash).1 (by decide)
    have hdrop : ("/*".toList ++ (body ++ ("*/".toList ++ rest))).drop 2 =
        body ++ ("*/".toList ++ rest) := rfl
    rw [htext, behindPiece, if_neg hblank, if_neg hline, hdrop, fromMark_append hbody,
      if_pos ⟨hblock, List.cons_ne_nil _ _⟩]
    rfl

/-- What is taken off the beginning of a text as a piece is one. -/
theorem exists_piece {w rest : List Char} (h : behindPiece w = some rest) :
    ∃ piece, w = piece ++ rest ∧ Piece piece rest := by
  unfold behindPiece at h
  split at h
  · next hspace =>
    cases w with
    | nil => cases hspace
    | cons c w =>
      cases h
      exact ⟨[c], rfl, .blank hspace _⟩
  · split at h
    · next hline =>
      obtain ⟨back, rfl⟩ := hline
      have hrest : back.dropWhile (· != '\n') = rest := Option.some.inj h
      refine ⟨"//".toList ++ back.takeWhile (· != '\n'), ?_, .line (fun hmem => ?_) ?_⟩
      · rw [← hrest, List.append_assoc, List.takeWhile_append_dropWhile]
      · exact absurd (List.mem_takeWhile_imp hmem) (by decide)
      · rw [← hrest]
        cases hback : back.dropWhile (· != '\n') with
        | nil => exact .inl rfl
        | cons c behind =>
          have hc := List.head_dropWhile_not (l := back) (· != '\n') (by rw [hback]; simp)
          simp only [hback, List.head_cons, bne_eq_false_iff_eq] at hc
          exact .inr (congrArg some hc)
    · split at h
      · next hblock =>
        obtain ⟨⟨back, rfl⟩, hclosed⟩ := hblock
        obtain ⟨body, hback, hbody⟩ := exists_append_fromMark back
        obtain hnone | ⟨behind, hbehind⟩ := fromMark_cases back
        · exact absurd hnone hclosed
        · have hrest : (fromMark back).drop 2 = rest := Option.some.inj h
          rw [hbehind] at hrest hback
          obtain rfl : behind = rest := hrest
          refine ⟨"/*".toList ++ body ++ "*/".toList, ?_, .block hbody _⟩
          rw [hback]
          simp only [List.append_assoc]
      · cases h

/-! ### Layout -/

/-- What is skipped is put together from pieces. -/
theorem exists_pieces (w : List Char) :
    ∃ front, w = front ++ skipLayout w ∧ Pieces front (skipLayout w) := by
  fun_induction skipLayout w with
  | case1 w rest h ih =>
    obtain ⟨piece, hw, hpiece⟩ := exists_piece h
    obtain ⟨front, hrest, hfront⟩ := ih
    refine ⟨piece ++ front, ?_, .cons ?_ hfront⟩
    · rw [List.append_assoc, ← hrest]
      exact hw
    · rwa [← hrest]
  | case2 w h => exact ⟨[], rfl, .nil w⟩

/-- Pieces in front of a text are skipped together with those that the text begins with. -/
theorem Pieces.skipLayout_eq {front rest : List Char} (h : Pieces front rest) :
    skipLayout (front ++ rest) = skipLayout rest := by
  induction h with
  | nil rest => rfl
  | cons hpiece _ ih => rw [List.append_assoc, skipLayout_some hpiece.behindPiece_eq, ih]

/-- The longest stretch of layout at the beginning of a text, and what stands behind it. -/
structure LongestLayout (w front back : List Char) : Prop where
  split : w = front ++ back
  pieces : Pieces front back
  longest : ∀ front' back', w = front' ++ back' → Pieces front' back' →
    front'.length ≤ front.length

/-- What is skipped is the longest stretch of layout. -/
theorem exists_longestLayout (w : List Char) : ∃ front, LongestLayout w front (skipLayout w) := by
  obtain ⟨front, hw, hfront⟩ := exists_pieces w
  refine ⟨front, hw, hfront, fun front' back' hw' hfront' => ?_⟩
  have hle : (skipLayout w).length ≤ back'.length := by
    rw [hw', hfront'.skipLayout_eq]
    exact length_skipLayout_le back'
  have hlength := congrArg List.length hw
  have hlength' := congrArg List.length hw'
  rw [List.length_append] at hlength hlength'
  omega

/-- There is only one longest stretch of layout. -/
theorem LongestLayout.back_eq {w front back : List Char} (h : LongestLayout w front back) :
    back = skipLayout w := by
  obtain ⟨front', hw, hfront'⟩ := exists_pieces w
  have hlonger : front'.length ≤ front.length := h.longest front' _ hw hfront'
  have hle : (skipLayout w).length ≤ back.length := by
    rw [h.split, h.pieces.skipLayout_eq]
    exact length_skipLayout_le back
  have hsplit : front ++ back = front' ++ skipLayout w := h.split.symm.trans hw
  have hlength := congrArg List.length hsplit
  rw [List.length_append, List.length_append] at hlength
  exact (List.append_inj hsplit (by omega)).2

/-- Behind layout a mark that opens a comment opens one that is never closed. -/
theorem unclosed_skipLayout_iff (w : List Char) :
    Unclosed (skipLayout w) ↔ "/*".toList <+: skipLayout w := by
  constructor
  · rintro ⟨body, hw, -⟩
    exact ⟨body, hw.symm⟩
  · rintro ⟨body, hw⟩
    refine ⟨body, hw.symm, ?_⟩
    have hblank : ¬ ("/*".toList ++ body).head?.any isWhiteSpace = true := slash_not_blank _
    have hnone := behindPiece_skipLayout w
    rw [← hw, behindPiece, if_neg hblank] at hnone
    split at hnone
    · cases hnone
    · split at hnone
      · cases hnone
      · next hopen =>
        rw [← fromMark_eq_nil_iff]
        by_contra hclosed
        exact hopen ⟨List.prefix_append _ _, hclosed⟩

end AttrGrammar.Cpp

import AttrGrammar.Proofs.CppLexemes
import AttrGrammar.Proofs.CppRules
import AttrGrammar.Proofs.ReadingSteps

/-! What lies between the parts of a rule: white space and comments. A gap is crossed piece by piece,
up to a text that does not begin with a piece. Only a comment that is never closed stops the parse.
-/

namespace AttrGrammar.Cpp
open Text Peg
open Reader

variable (w : List Char) (f : Frame Value) (u : Unit)

/-- A comment is read up to its closing mark, or to the end of the text. -/
theorem star_fromMark :
    star .nothing (difference (oneChar fun _ => true) (literal "*/".toList)) w f u =
      .hit (fromMark w) f u := by
  rw [star_nothing]
  induction w with
  | nil => exact iterate_miss rfl
  | cons c w ih =>
      unfold fromMark
      by_cases hmark : "*/".toList <+: c :: w
      · obtain ⟨back, hback⟩ := hmark
        rw [if_pos ⟨back, hback⟩]
        obtain ⟨rfl, rfl⟩ := List.cons.inj hback
        exact iterate_miss (difference_miss (oneChar_cons _ '*' ('/' :: back) f u)
          (literal_hit "*/".toList back f u) (Nat.le_succ _))
      · rw [if_neg hmark, ← ih]
        exact iterate_hit (difference_hit (oneChar_cons _ c w f u) (literal_miss hmark f u))
          (Nat.lt_succ_self _)

theorem readLineComment_hit (h : "//".toList <+: w) :
    readLineComment .nothing w f u = .hit (w.dropWhile (· != '\n')) f u := by
  obtain ⟨back, rfl⟩ := h
  have hbody : star .nothing (difference (oneChar fun _ => true) (oneChar (· == '\n'))) back f u =
      .hit (back.dropWhile (· != '\n')) f u := by
    rw [difference_oneChar]
    exact star_oneChar_eq (fun c => true && !(c == '\n')) back f u
  exact (seq_hit (literal_hit "//".toList back f u)).trans hbody

theorem readBlockComment_eq (h : "/*".toList <+: w) :
    readBlockComment .nothing w f u =
      if fromMark (w.drop 2) = [] then .stop .expected u
      else .hit ((fromMark (w.drop 2)).drop 2) f u := by
  obtain ⟨back, rfl⟩ := h
  have hbody : readBlockComment .nothing ("/*".toList ++ back) f u =
      expect (literal "*/".toList) (fromMark back) f u :=
    (seq_hit (literal_hit "/*".toList back f u)).trans (seq_hit (star_fromMark back f u))
  rw [hbody]
  show _ = if fromMark back = [] then Outcome.stop .expected u
    else .hit ((fromMark back).drop 2) f u
  rcases fromMark_cases back with hnone | ⟨rest, hrest⟩
  · rw [if_pos hnone, hnone]
    rfl
  · rw [hrest, if_neg (by simp)]
    exact expect_hit (literal_hit "*/".toList rest f u)

/-- A piece of layout is read if there is one, and a comment that is never closed stops reading. -/
theorem readPiece_eq :
    readPiece .nothing w f u =
      match behindPiece w with
      | some rest => .hit rest f u
      | none => if "/*".toList <+: w then .stop .expected u else .miss f u := by
  unfold readPiece behindPiece
  by_cases hspace : w.head?.any isWhiteSpace
  · rw [if_pos hspace]
    obtain ⟨c, w, rfl⟩ := List.exists_cons_of_ne_nil (l := w) (by rintro rfl; cases hspace)
    exact choice_hit (by rw [oneChar_cons]; exact if_pos hspace)
  · rw [if_neg hspace]
    refine choice_right (oneChar_miss (fun c hc => ?_) f u) ?_
    · rw [hc] at hspace
      exact Bool.eq_false_iff.2 hspace
    by_cases hline : "//".toList <+: w
    · rw [if_pos hline]
      exact choice_hit (readLineComment_hit w f u hline)
    · rw [if_neg hline]
      refine choice_right (seq_miss (literal_miss hline f u)) ?_
      by_cases hblock : "/*".toList <+: w
      · rw [readBlockComment_eq w f u hblock]
        by_cases hopen : fromMark (w.drop 2) = []
        · rw [if_pos hopen, if_neg (fun h => h.2 hopen)]
          exact (if_pos hblock).symm
        · rw [if_neg hopen, if_pos ⟨hblock, hopen⟩]
      · rw [if_neg fun h => hblock h.1]
        exact (seq_miss (literal_miss hblock f u)).trans (if_neg hblock).symm

/-- Layout is read to its end, and a comment that is never closed stops reading. -/
theorem iterate_readPiece :
    iterate (readPiece .nothing) w f u =
      if "/*".toList <+: skipLayout w then .stop .expected u else .hit (skipLayout w) f u := by
  fun_induction skipLayout w with
  | case1 w rest h ih =>
      have hpiece : readPiece .nothing w f u = .hit rest f u := by rw [readPiece_eq, h]
      rw [iterate_hit hpiece (length_behindPiece_lt h)]
      exact ih
  | case2 w h =>
      have hpiece := readPiece_eq w f u
      rw [h] at hpiece
      dsimp only at hpiece
      split
      · next hopen =>
        rw [if_pos hopen] at hpiece
        exact iterate_stop hpiece
      · next hnot =>
        rw [if_neg hnot] at hpiece
        exact iterate_miss hpiece

/-- A gap is crossed to the end of the layout, and a comment that is never closed stops reading. -/
theorem gap_eq (levels : Nat) :
    gap (levels + 1) true w f u =
      if "/*".toList <+: skipLayout w then .stop .expected u else .hit (skipLayout w) f u := by
  have hgap : gap (levels + 1) true w f u =
      (star .nothing (readPiece .nothing) w ((Frame.ofLocals []).bindInherited [] []) u).map
        (fun _ => f) fun _ => f := by
    show ((reader (levels + 1) false "Spacing" [] w u).map (fun _ => f) fun _ => f).orElse
      (nothing w) = _
    rw [reader_succ]
    show ((readSpacing .nothing [] w u).map _ _).orElse _ = _
    unfold readSpacing activation Reader.star Reader.optional choice
    cases plus .nothing (readPiece .nothing) w ((Frame.ofLocals []).bindInherited [] []) u <;> rfl
  rw [hgap, star_nothing, iterate_readPiece]
  split <;> rfl

end AttrGrammar.Cpp

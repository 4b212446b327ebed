import AttrGrammar.Proofs.ReadingSteps

/-! Words: an identifier character that may begin one, and others behind it. Where a word stands in
front of something that does not go on with it, the text tells where it ends. -/

namespace AttrGrammar.Peg
open Reader

theorem isIdCont_of_isIdStart {c : Char} (h : isIdStart c) : isIdCont c := by
  rcases Bool.or_eq_true_iff.1 h with halphabetic | hunderscore
  · simp [isIdCont, halphabetic]
  · simp [isIdCont, hunderscore]

/-- A character that begins a word, and others that go on with it. -/
structure IsWord (word : List Char) : Prop where
  start : word.head?.any isIdStart
  goesOn : ∀ c ∈ word.tail, isIdCont c

instance (word : List Char) : Decidable (IsWord word) :=
  decidable_of_iff (word.head?.any isIdStart ∧ word.tail.all isIdCont)
    ⟨fun h => ⟨h.1, List.all_eq_true.1 h.2⟩, fun h => ⟨h.1, List.all_eq_true.2 h.2⟩⟩

theorem IsWord.isIdCont {word : List Char} (h : IsWord word) : ∀ c ∈ word, isIdCont c := by
  cases word with
  | nil => exact nofun
  | cons c word => exact List.forall_mem_cons.2 ⟨isIdCont_of_isIdStart h.start, h.goesOn⟩

theorem takeWhile_of_ends {accept : Char → Bool} {front rest : List Char}
    (hfront : ∀ c ∈ front, accept c) (hrest : Ends accept rest) :
    (front ++ rest).takeWhile accept = front := by
  rw [List.takeWhile_append_of_pos hfront]
  cases rest with
  | nil => exact List.append_nil front
  | cons c rest => rw [List.takeWhile_cons_of_neg (by simp [hrest c rfl]), List.append_nil]

/-- Two words that begin the same text, and end there, are one. -/
theorem IsWord.cancel {word word' w w' : List Char} (h : IsWord word) (h' : IsWord word')
    (hw : Ends Peg.isIdCont w) (hw' : Ends Peg.isIdCont w') (htext : word ++ w = word' ++ w') :
    word = word' ∧ w = w' := by
  have hword : word = word' := by
    calc word = (word ++ w).takeWhile Peg.isIdCont := (takeWhile_of_ends h.isIdCont hw).symm
      _ = (word' ++ w').takeWhile Peg.isIdCont := by rw [htext]
      _ = word' := takeWhile_of_ends h'.isIdCont hw'
  subst hword
  exact ⟨rfl, List.append_cancel_left htext⟩

end AttrGrammar.Peg

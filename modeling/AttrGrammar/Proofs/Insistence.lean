import AttrGrammar.Proofs.Cutoff
import AttrGrammar.Proofs.Recognition
import AttrGrammar.Proofs.Suppression

/-! Steps that insist on one thing. Where no skip rule applies, a search for a mark goes on to the
first place where the mark stands, or to the end of the text. A step that then insists on the mark
breaks off only at the end of the text, and sequences, alternatives and repetitions of such steps
break off nowhere else. -/

namespace AttrGrammar.Parse
open Text Scan Peg

variable {V W : Type}

/-- The state stands in the text, and no skip rule applies. -/
structure State.Idle (setting : Setting V W) (s : State V W) : Prop where
  inBounds : s.scanner.offset ≤ setting.source.text.size
  inactive : s.scanner.activeSkip setting.skipRule = none

theorem State.Idle.forward {setting : Setting V W} {s t : State V W} (hs : s.Idle setting)
    (h : Forward setting.source.text s t) : t.Idle setting :=
  ⟨h.inBounds hs.inBounds, (State.activeSkip_of_level h.level _).trans hs.inactive⟩

/-- The text has ended, and something expected does not stand there; or there was no fuel left to
find that out. -/
def Failure.AtEnd (setting : Setting V W) (expected : String) (e : Failure) (t : State V W) :
    Prop :=
  e = .outOfFuel ∨ t.scanner.offset = setting.source.text.size ∧
    e = .error (.expectation expected
      (setting.location (t.scanner.currentSpan setting.source)))

namespace Step

/-- A step that reads what its match tells and, where no skip rule applies, breaks off only at the
end of the text. -/
structure Insists (setting : Setting V W) (expected : String) (x : Step V W Match) : Prop where
  reading : Reading setting.source.text x
  broken : ∀ s : State V W, s.Idle setting →
    x.Ensures s (fun _ _ => True) (Failure.AtEnd setting expected)

variable {setting : Setting V W} {expected : String} {x y : Step V W Match} {s : State V W}
  {call : RuleId → Step V W Match}

theorem Insists.run (h : Insists setting expected x) (hs : s.Idle setting) :
    x.Ensures s (fun m t => Reads setting.source.text s m t ∧ t.Idle setting)
      (Failure.AtEnd setting expected) :=
  ((h.reading s).and (h.broken s hs)).mono (fun _ _ h => ⟨h.1, hs.forward h.1.forward⟩)
    fun _ _ h => h.2

theorem Insists.scanOne (setting : Setting V W) (expected : String) (accept : Char → Bool) :
    Insists setting expected (scanOne setting accept) := by
  refine ⟨.scanOne setting accept, fun s _ => ?_⟩
  simp only [Step.scanOne, ensures_bind, ensures_get]
  split
  · simp only [ensures_ite, ensures_bind, ensures_scan, ensures_pure, ite_self]
  · trivial

theorem Insists.literal (setting : Setting V W) (expected : String) (word : List Char) :
    Insists setting expected (literal setting word) := by
  refine ⟨.literal setting word, fun s _ => ?_⟩
  simp only [Step.literal, seesWord, ensures_bind, ensures_get, ensures_pure, ensures_ite,
    ensures_scan, ite_self]

theorem ensures_skip_idle {good : Unit → State V W → Prop} {bad : Failure → State V W → Prop}
    (hs : s.Idle setting) : (skip setting call).Ensures s good bad ↔ good () s :=
  ensures_iff_of_ok (skip_of_inactive hs.inactive call)

theorem Insists.sequence (hcall : ∀ id, Reading setting.source.text (call id))
    (hx : Insists setting expected x) (hy : Insists setting expected y) :
    Insists setting expected (sequence (skip setting call) x y) := by
  refine ⟨.sequence (.skip setting hcall) hx.reading hy.reading, fun s hs => ?_⟩
  simp only [Step.sequence, ensures_bind, ensures_place, ensures_ite, ensures_matchedSince,
    ensures_missAt, ite_self]
  apply (hx.run hs).imp
  intro m t ht
  split
  · rw [ensures_skip_idle ht.2]
    exact hy.broken t ht.2
  · trivial

theorem Insists.alternative (hx : Insists setting expected x) (hy : Insists setting expected y) :
    Insists setting expected (alternative x y) := by
  refine ⟨hx.reading.alternative hy.reading, fun s hs => ?_⟩
  simp only [Step.alternative, ensures_bind, ensures_place, ensures_ite, ensures_pure,
    ensures_rewind, ensures_missAt, ite_self]
  apply (hx.run hs).imp
  intro m t ht
  split
  · trivial
  · exact hy.broken _ (hs.forward ht.1.forward.rewound)

theorem Insists.difference (hx : Insists setting expected x) (hy : Insists setting expected y) :
    Insists setting expected (difference x y) := by
  refine ⟨hx.reading.difference hy.reading, fun s hs => ?_⟩
  simp only [Step.difference, ensures_bind, ensures_place, ensures_ite, ensures_pure,
    ensures_rewind, ensures_offset, ensures_missAt, ite_self]
  apply (hx.run hs).imp
  intro m t ht
  split
  · exact hy.broken _ (hs.forward ht.1.forward.rewound)
  · trivial

/-! ### Repetitions -/

/-- A repetition stops in front of a text at which its body stops, by a miss or without having read
anything. -/
theorem repeatMany_stops {P : List Char → Prop} (hx : Insists setting expected x)
    (hstop : ∀ s : State V W, s.Idle setting → x.Ensures s
      (fun m t => m.isHit = false ∨ t.scanner.offset = s.scanner.offset →
        P (s.rest setting.source.text)) fun _ _ => True)
    (fuel count : Nat) (hs : s.Idle setting) :
    (repeatMany (skip setting call) x fuel count).Ensures s
      (fun _ t => Forward setting.source.text s t ∧ P (t.rest setting.source.text))
      (Failure.AtEnd setting expected) := by
  induction fuel generalizing s count with
  | zero => exact .inl rfl
  | succ fuel ih =>
    have hbefore {good : Unit → State V W → Prop} :
        (skipBefore (skip setting call) count).Ensures s good (Failure.AtEnd setting expected) ↔
          good () s := by
      unfold skipBefore
      split
      · exact ensures_skip_idle hs
      · exact Iff.rfl
    simp only [Step.repeatMany, ensures_bind, ensures_place, ensures_offset, ensures_ite,
      ensures_rewind, ensures_pure, hbefore]
    refine ((hx.run hs).and (hstop s hs)).mono (fun m t ht => ?_) fun _ _ he => he.1
    obtain ⟨⟨hreads, hidle⟩, hstops⟩ := ht
    split
    · next hend =>
      have hend : m.isHit = false ∨ t.scanner.offset = s.scanner.offset := by simpa using hend
      exact ⟨hreads.forward.rewound, hstops hend⟩
    · exact (ih (count + 1) hidle).imp fun _ u hu => ⟨hreads.forward.trans hu.1, hu.2⟩

theorem Insists.repeated (hcall : ∀ id, Reading setting.source.text (call id))
    (hx : Insists setting expected x) (least : Nat) :
    Insists setting expected (repeated setting (skip setting call) x least) := by
  refine ⟨.repeated (.skip setting hcall) hx.reading least, fun s hs => ?_⟩
  simp only [Step.repeated, ensures_bind, ensures_place, ensures_ite, ensures_missAt,
    ensures_matchedSince, ite_self]
  have hany : ∀ s : State V W, s.Idle setting → x.Ensures s
      (fun m t => m.isHit = false ∨ t.scanner.offset = s.scanner.offset → True)
      fun _ _ => True := fun s _ => (ensures_trivial x s).imp fun _ _ _ _ => trivial
  exact (repeatMany_stops (P := fun _ => True) hx hany _ 0 hs).imp fun _ _ _ => trivial

/-! ### Up to a mark -/

/-- A character that is taken unless a mark stands there is taken, except at the mark and at the end
of the text. -/
theorem beforeMark_stops {mark : List Char} (hs : s.Idle setting) :
    (difference (scanOne setting fun _ => true) (literal setting mark)).Ensures s
      (fun m t => m.isHit = false ∨ t.scanner.offset = s.scanner.offset →
        s.rest setting.source.text = [] ∨ mark <+: s.rest setting.source.text)
      fun _ _ => True := by
  have hrecognizes := Recognizes.difference (.scanOne s.skips setting fun _ => true)
    (.literal s.skips setting mark)
  refine (hrecognizes.run hs.inBounds rfl).mono (fun m t h hend => ?_) fun _ _ _ => trivial
  obtain ⟨hpast, hverdict⟩ := h
  have hlength : m.length = 0 := by
    obtain hmiss | hstill := hend
    · cases m with
      | miss => rfl
      | hit n => cases hmiss
    · have hoffset := hpast.offset
      omega
  cases hrest : s.rest setting.source.text with
  | nil => exact .inl rfl
  | cons c w =>
    by_cases hmark : mark <+: c :: w
    · exact .inr hmark
    · have hhit : m.verdict = .hit 1 := by
        rw [← hverdict, hrest, Recognizer.difference, Recognizer.literal, if_neg hmark]
        rfl
      cases m with
      | miss => cases hhit
      | hit n =>
        cases hhit
        cases hlength

/-- What is read up to a mark and then insists on the mark breaks off only at the end of the text. -/
theorem insists_upTo (hcall : ∀ id, Reading setting.source.text (call id)) (mark : List Char)
    (expected : String) :
    Insists setting expected
      (sequence (skip setting call)
        (repeated setting (skip setting call)
          (difference (scanOne setting fun _ => true) (literal setting mark)) 0)
        (orElse (literal setting mark) fun start => failExpectingHere setting expected start)) := by
  have hsearch : Insists setting expected
      (difference (scanOne setting fun _ => true) (literal setting mark)) :=
    (Insists.scanOne setting expected _).difference (.literal setting expected mark)
  have hmoving := Moving.skip setting hcall
  refine ⟨.sequence hmoving (.repeated hmoving hsearch.reading 0)
    ((Reading.literal setting mark).expectation expected), fun s hs => ?_⟩
  simp only [Step.sequence, Step.repeated, ensures_bind, ensures_place, ensures_ite,
    ensures_matchedSince, ensures_missAt]
  apply (repeatMany_stops (P := fun w => w = [] ∨ mark <+: w) hsearch
    (fun _ => beforeMark_stops) _ 0 hs).imp
  rintro count t ⟨hforward, hstop⟩
  have ht : t.Idle setting := hs.forward hforward
  rw [if_neg (Nat.not_lt_zero count), if_pos (Match.isHit_hit _), ensures_skip_idle ht]
  simp only [orElse, failExpectingHere, failExpecting, Step.literal, seesWord, ensures_bind,
    ensures_get, ensures_pure, ensures_ite, ensures_place, ensures_scan, ensures_fail,
    startsWith_iff]
  split
  · simp
  · next hnot =>
    obtain hend | hstands := hstop
    · have hle : setting.source.text.size ≤ t.scanner.offset := by
        simpa [State.rest] using hend
      exact .inr ⟨Nat.le_antisymm ht.inBounds hle, rfl⟩
    · exact absurd hstands hnot

/-! ### Activations -/

/-- An activation that is admitted while the skip rule runs breaks off where its tree does. -/
theorem Insists.activate (hx : Insists setting expected x) {rule : Rule V W}
    (hinherited : rule.inherited = []) (hvalue : rule.hasValue = false) (hs : s.Idle setting)
    (hskipping : s.scanner.skipping = true) (hadmitted : ¬ setting.Refuses s.depth) :
    (activate setting rule x).Ensures s (fun _ _ => True) (Failure.AtEnd setting expected) := by
  have henter : enter setting rule s = .ok () { s with depth := s.depth + 1 } := by
    rw [enter_admitted rule hadmitted]
    show (if s.scanner.skipping = true then pure () else _ : Step V W Unit)
      { s with depth := s.depth + 1 } = _
    rw [if_pos hskipping]
    rfl
  have hleave {t : State V W} (m : Match) (ht : t.scanner.skipping = true) :
      (leave setting rule s.scanner.position m).Ensures t (fun _ _ => True)
        (Failure.AtEnd setting expected) := by
    simp only [leave, ensures_bind, ensures_modify, ensures_get, ensures_ite, ensures_pure, ht]
    trivial
  have hidle : State.Idle setting
      { s with depth := s.depth + 1, frame := (Frame.ofLocals rule.locals).bindInherited [] [] } :=
    ⟨hs.inBounds, hs.inactive⟩
  simp only [Step.activate, ensures_bind, ensures_place]
  rw [ensures_iff_of_ok henter]
  apply ensures_closing
  simp only [Step.evaluate, hinherited, List.length_nil, popArguments, ensures_inFrame,
    ensures_bind, ensures_pure, ensures_modifyFrame, ensures_ite, hvalue, ensures_matchedSince,
    ensures_missAt]
  refine (hx.run hidle).mono (fun m t ht => ?_) fun e t he => ?_
  · obtain ⟨-, -, hkept⟩ := State.level_eq_iff.1 ht.1.level
    have ht' : t.scanner.skipping = true := hkept.trans hskipping
    split
    · exact hleave _ ht'
    · exact hleave _ ht'
  · exact ensures_leave setting rule _ _ (fun _ _ => he) fun _ _ => he

end Step

end AttrGrammar.Parse

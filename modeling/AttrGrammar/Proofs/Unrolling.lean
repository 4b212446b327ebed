import AttrGrammar.Proofs.CallPassage
import AttrGrammar.Proofs.Regrouping
import AttrGrammar.Proofs.Suppression
import Mathlib.Logic.Relation

/-! Lists unrolled. Where nothing is skipped, a list of elements with separators between them is an
element and then any number of rounds of a separator and an element. The loop of a list ends where a
round reads nothing and stays there, while a repetition goes back to where that round began. This
makes no difference, since a place is determined by how far it lies behind another one from which
the cursor came to it. -/

namespace AttrGrammar.Parse
open Text Scan Peg Relation

variable {V W α : Type}

/-! ### Places reached by reading on -/

/-- Reading one character of the text leads from a place to another one. -/
def ReadsOne (text : Buffer) (p q : Position) : Prop :=
  ∃ c, text[p.offset]? = some c ∧ q = p.advanced c

/-- From one place to another by reading on. -/
def Onward (text : Buffer) : Position → Position → Prop := ReflTransGen (ReadsOne text)

namespace Onward

variable {text : Buffer} {p q : Position}

theorem offset_le (h : Onward text p q) : p.offset ≤ q.offset := by
  induction h with
  | refl => exact Nat.le_refl _
  | tail _ hlast ih =>
    obtain ⟨c, -, rfl⟩ := hlast
    rw [Position.offset_advanced]
    omega

/-- A place as far in the text is the same place, and one that lies behind was reached by reading
characters of the text. -/
theorem eq_or_lt (h : Onward text p q) : q = p ∨ p.offset < q.offset ∧ p.offset < text.size := by
  obtain rfl | ⟨r, ⟨c, hc, rfl⟩, hrest⟩ := ReflTransGen.cases_head h
  · exact .inl rfl
  · have hle := offset_le hrest
    rw [Position.offset_advanced] at hle
    exact .inr ⟨by omega, (Array.getElem?_eq_some_iff.1 hc).1⟩

end Onward

/-- From `s` to `t` the cursor came by reading on, however the run ends or breaks off. -/
structure Advances (setting : Setting V W) (s : State V W) (r : Option Failure) (t : State V W) :
    Prop where
  skipping : t.scanner.skipping = s.scanner.skipping
  onward : Onward setting.source.text s.scanner.position t.scanner.position

namespace Advances

variable {setting : Setting V W} {s t u : State V W} {r r' : Option Failure}

theorem refl (s : State V W) (r : Option Failure) : Advances setting s r s := ⟨rfl, .refl⟩

theorem trans (h : Advances setting s r t) (h' : Advances setting t r' u) :
    Advances setting s r' u :=
  ⟨h'.skipping.trans h.skipping, ReflTransGen.trans h.onward h'.onward⟩

/-- Only the place is looked at, and whether the skip rule runs. -/
theorem congr {s' t' : State V W} (h : Advances setting s r t)
    (hs : s'.scanner.position = s.scanner.position)
    (ht : t'.scanner.position = t.scanner.position)
    (hskipping : t'.scanner.skipping = s'.scanner.skipping) : Advances setting s' r' t' :=
  ⟨hskipping, by rw [hs, ht]; exact h.onward⟩

theorem advance (s : State V W) : Advances setting s none
    { s with scanner := s.scanner.mapCursor (·.advance setting.source.text) } := by
  refine ⟨rfl, ?_⟩
  show Onward _ _ (s.scanner.cursor.advance setting.source.text).position
  unfold Cursor.advance
  split
  · next c hc => exact ReflTransGen.single ⟨c, hc, rfl⟩
  · exact ReflTransGen.refl

end Advances

theorem advances_acts (setting : Setting V W) (run : ActionContext V W → ActionContext V W) :
    Step.ActsAlong setting (Advances setting) run where
  done h _ := h.congr rfl rfl h.skipping
  raised h _ _ := h.congr rfl rfl h.skipping

theorem advances_passage (setting : Setting V W) :
    Step.CallPassage setting (Advances setting) where
  refl s := .refl s none
  trans := .trans
  exhausted s := .refl s _
  fail s _ _ := .refl s _
  unexpected _ h _ := h.congr rfl rfl h.skipping
  advance := .advance
  rewound h := ⟨h.skipping, .refl⟩
  recross h h' := ⟨h'.skipping.trans h.skipping, h.onward⟩
  inToken h := h.congr rfl rfl h.skipping
  stack _ h := h.congr rfl rfl h.skipping
  frame _ h := h.congr rfl rfl h.skipping
  act _ := advances_acts setting _
  skipping h := h.skipping
  inSkip hskipping h := h.congr rfl rfl hskipping.symm
  refused _ _ := .refl _ _
  silent _ h := h.congr rfl rfl h.skipping
  unopened _ _ _ := (Advances.refl _ none).congr rfl rfl rfl
  closed _ _ _ _ h _ _ := h.congr rfl rfl h.skipping
  cut _ _ _ _ h _ := h.congr rfl rfl h.skipping
  unclosed _ _ _ h _ := h.congr rfl rfl h.skipping

namespace Step

/-- A step that, when it comes to its end, read what its match tells, and came there by reading on.
-/
def Steady (text : Buffer) (x : Step V W Match) : Prop :=
  ∀ s, x.Ensures s
    (fun m t => Reads text s m t ∧ Onward text s.scanner.position t.scanner.position)
    fun _ _ => True

theorem evalParser_steady (setting : Setting V W) (fuel : Nat) (p : LinkedParser V W) :
    Steady setting.source.text (evalParser setting (evalRule setting fuel) p) := by
  intro s
  have hread : Reading setting.source.text (evalParser setting (evalRule setting fuel) p) :=
    evalParser_reading setting (evalRule_reading setting fuel) p
  have hpath : Along (Advances setting) (evalParser setting (evalRule setting fuel) p) :=
    (advances_passage setting).evalParser (evalRule_reading setting fuel)
      ((advances_passage setting).evalRule fuel) fun a _ _ => advances_acts setting a.run
  exact ((hread s).and (hpath s)).mono (fun _ _ h => ⟨h.1, h.2.onward⟩) fun _ _ _ => trivial

/-! ### The two loops -/

variable {setting : Setting V W} {text : Buffer} {skip : Step V W Unit} {x y : Step V W Match}
  {s : State V W}

/-- One round of a repetition. -/
theorem repeatMany_succ (hskip : skip s = .ok () s) (fuel count : Nat) :
    repeatMany skip x (fuel + 1) count s = match x s with
      | .error e t => .error e t
      | .ok .miss t => .ok count (t.backAt s.scanner.position)
      | .ok (.hit _) t =>
        if t.scanner.offset = s.scanner.offset then
          .ok (count + 1) (t.backAt s.scanner.position)
        else repeatMany skip x fuel (count + 1) t := by
  have hbefore : skipBefore skip count s = .ok () s := by
    unfold skipBefore
    split
    · exact hskip
    · rfl
  simp only [repeatMany, bind_apply, place_apply, hbefore, offset_apply]
  cases x s with
  | error e t => rfl
  | ok m t =>
    cases m with
    | miss => rfl
    | hit n =>
      show (if (!true || t.scanner.offset = s.scanner.offset) = true then
        (do rewind s.scanner.position; return count + 1)
        else repeatMany skip x fuel (count + 1)) t = _
      by_cases hstill : t.scanner.offset = s.scanner.offset
      · rw [if_pos (by simpa using hstill)]
        exact (if_pos hstill).symm
      · rw [if_neg (by simpa using hstill)]
        exact (if_neg hstill).symm

/-- One round of a list. -/
theorem listTail_succ (hskip : ∀ t : State V W, t.level = s.level → skip t = .ok () t)
    (hy : Reading text y) (fuel : Nat) :
    listTail skip x y (fuel + 1) s = match y s with
      | .error e t => .error e t
      | .ok .miss t => .ok () (t.backAt s.scanner.position)
      | .ok (.hit _) t => match x t with
        | .error e u => .error e u
        | .ok .miss u => .ok () (u.backAt s.scanner.position)
        | .ok (.hit _) u =>
          if u.scanner.offset = s.scanner.offset then .ok () u else listTail skip x y fuel u := by
  simp only [listTail, bind_apply, place_apply, hskip s rfl]
  cases hrun : y s with
  | error e t => rfl
  | ok m t =>
    have hlevel : t.level = s.level := ((hy s).of_ok hrun).level
    cases m with
    | miss => rfl
    | hit n =>
      show (skip >>= _) t = _
      rw [bind_apply, hskip t hlevel]
      dsimp only
      rw [bind_apply]
      cases x t with
      | error e u => rfl
      | ok m u =>
        cases m with
        | miss => rfl
        | hit n =>
          show (if u.scanner.offset = s.scanner.offset then pure () else listTail skip x y fuel) u =
            _
          by_cases hstill : u.scanner.offset = s.scanner.offset
          · rw [if_pos hstill, pure_apply]
            exact (if_pos hstill).symm
          · rw [if_neg hstill]
            exact (if_neg hstill).symm

/-- What a sequence does where nothing is skipped between its parts. -/
theorem sequence_idle (hskip : ∀ t : State V W, t.level = s.level → skip t = .ok () t)
    (hy : Reading text y) :
    sequence skip y x s = match y s with
      | .error e t => .error e t
      | .ok .miss t => .ok .miss (t.backAt s.scanner.position)
      | .ok (.hit _) t => match x t with
        | .error e u => .error e u
        | .ok .miss u => .ok .miss (u.backAt s.scanner.position)
        | .ok (.hit _) u => .ok (.hit (u.scanner.offset - s.scanner.offset)) u := by
  rw [sequence_apply]
  cases hrun : y s with
  | error e t => rfl
  | ok m t =>
    have hlevel : t.level = s.level := ((hy s).of_ok hrun).level
    cases m with
    | miss => rfl
    | hit n =>
      dsimp only
      rewrite [hskip t hlevel]
      rfl

/-- What is repeated after the first element of a list does as the list goes on, round by round: it
ends in the same state or breaks off with the same failure. Fuel suffices as long as there is more
of it than text, since a round that goes on has read a character. -/
theorem repeatMany_eq_listTail {fuel fuel' : Nat} (hx : Steady text x) (hy : Steady text y)
    (hskip : ∀ t : State V W, t.level = s.level → skip t = .ok () t)
    (hfuel : text.size - s.scanner.offset < fuel) (hfuel' : text.size - s.scanner.offset < fuel')
    (count : Nat) :
    (do let _ ← repeatMany skip (sequence skip y x) fuel' count) s = listTail skip x y fuel s := by
  have hread : Reading text y := fun s => (hy s).imp fun _ _ h => h.1
  induction fuel generalizing fuel' count s with
  | zero => omega
  | succ fuel ih =>
    obtain ⟨fuel', rfl⟩ : ∃ n, fuel' = n + 1 := ⟨fuel' - 1, by omega⟩
    rw [bind_apply, repeatMany_succ (hskip s rfl), sequence_idle hskip hread,
      listTail_succ hskip hread]
    cases hseparator : y s with
    | error e t => rfl
    | ok m t =>
      obtain ⟨hreads, honward⟩ := (hy s).of_ok hseparator
      cases m with
      | miss => rfl
      | hit n =>
        dsimp only
        cases helement : x t with
        | error e u => rfl
        | ok m u =>
          obtain ⟨hreads', honward'⟩ := (hx t).of_ok helement
          cases m with
          | miss => rfl
          | hit n' =>
            have hlevel : u.level = s.level := hreads'.level.trans hreads.level
            dsimp only
            obtain hplace | ⟨hlt, hsize⟩ := Onward.eq_or_lt (honward.trans honward')
            · -- Nothing was read, so going back to the start of the round changes nothing.
              have hoffset : u.scanner.offset = s.scanner.offset := congrArg Position.offset hplace
              have hback : u.backAt s.scanner.position = u := by
                rw [← hplace]
                rfl
              rw [if_pos hoffset, if_pos hoffset, hback]
              rfl
            · have hne : ¬ u.scanner.offset = s.scanner.offset := Nat.ne_of_gt hlt
              have hless : text.size - u.scanner.offset < text.size - s.scanner.offset := by
                have hlt : s.scanner.offset < u.scanner.offset := hlt
                have hsize : s.scanner.offset < text.size := hsize
                omega
              have hrest : (do let _ ← repeatMany skip (sequence skip y x) fuel' (count + 1)) u =
                  listTail skip x y fuel u :=
                ih (fun v hv => hskip v (hv.trans hlevel)) (by omega) (by omega) (count + 1)
              rw [if_neg hne, if_neg hne, ← hrest, bind_apply]

/-- Where nothing is skipped, a list is an element and any number of rounds of a separator and an
element. -/
theorem list_eq_sequence (hx : Steady setting.source.text x) (hy : Steady setting.source.text y)
    (hskip : ∀ t : State V W, t.level = s.level → skip t = .ok () t) :
    list setting skip x y s =
      sequence skip x (repeated setting skip (sequence skip y x) 0) s := by
  have hread : Reading setting.source.text x := fun s => (hx s).imp fun _ _ h => h.1
  rw [sequence_idle hskip hread]
  simp only [list, bind_apply, place_apply]
  cases helement : x s with
  | error e t => rfl
  | ok m t =>
    have hreads : Reads setting.source.text s m t := (hread s).of_ok helement
    cases m with
    | miss =>
      have hback : t.backAt s.scanner.position = t := by
        rw [← hreads.position rfl]
        rfl
      dsimp only
      rw [hback]
      rfl
    | hit n =>
      have hoffset : t.scanner.offset = s.scanner.offset + n := hreads.offset
      have hloops : (do
          let _ ← repeatMany skip (sequence skip y x) (rounds setting t.scanner.position) 0) t =
          listTail skip x y (rounds setting s.scanner.position) t := by
        apply repeatMany_eq_listTail hx hy fun v hv => hskip v (hv.trans hreads.level)
        all_goals
          simp only [rounds, Scanner.offset_position]
          omega
      show (listTail skip x y (rounds setting s.scanner.position) >>= fun _ =>
        matchedSince s.scanner.position) t = _
      rw [bind_apply, ← hloops, bind_apply]
      simp only [repeated, bind_apply, place_apply]
      cases repeatMany skip (sequence skip y x) (rounds setting t.scanner.position) 0 t with
      | error e u => rfl
      | ok count u => rfl

end Step

/-! ### Trees -/

/-- A list of elements with separators between them is an element followed by any number of rounds
of a separator and an element, in every state in which no skip rule applies: it matches or breaks
off in the same way and leaves the same behind, at every depth of nesting, whatever actions the
parts run, and also where parts match nothing. -/
theorem evalParser_list_unrolled (setting : Setting V W) (fuel : Nat) (a b : LinkedParser V W)
    (s : State V W) (h : s.scanner.activeSkip setting.skipRule = none) :
    evalParser setting (evalRule setting fuel) (.list a b) s =
      evalParser setting (evalRule setting fuel) (.sequence a (.star (.sequence b a))) s := by
  have hskip (t : State V W) (ht : t.level = s.level) :
      Step.skip setting (evalRule setting fuel) t = .ok () t :=
    Step.skip_of_inactive ((State.activeSkip_of_level ht _).trans h) _
  have hlist := Step.list_eq_sequence (Step.evalParser_steady setting fuel a)
    (Step.evalParser_steady setting fuel b) hskip
  simpa only [evalParser] using hlist

/-- Letters that may be missing with blanks between them that may be missing, in a token group. -/
theorem evalParser_list_unrolled_spaced :
    let s : State Unit Unit := { State.start none () with
      scanner := (Scanner.start none).beginToken }
    let letter : LinkedParser Unit Unit := .optional (.oneOf .letter)
    let blank : LinkedParser Unit Unit := .optional (.char ' ')
    s.scanner.activeSkip spacedSetting.skipRule = none ∧
      evalParser spacedSetting (evalRule spacedSetting 2) (.list letter blank) s =
        evalParser spacedSetting (evalRule spacedSetting 2)
          (.sequence letter (.star (.sequence blank letter))) s := by
  intro s letter blank
  exact ⟨rfl, evalParser_list_unrolled spacedSetting 2 letter blank s rfl⟩

end AttrGrammar.Parse

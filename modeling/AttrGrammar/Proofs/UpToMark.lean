import AttrGrammar.Proofs.Recognition
import AttrGrammar.Proofs.Unrolling

/-! Reading up to a mark. Comments, character data sections and processing instructions are read by
repeating any character that does not begin a mark. Each round of such a repetition reads a
character, goes back and looks for the mark, and the round that finds it reads it and goes back
again. What is read in this way is the text in front of the first mark, and all of it if there is
no mark; the mark itself is only looked at. -/

namespace AttrGrammar.Text

/-! ### The first mark of a text -/

/-- How much of a text stands in front of the first mark, or all of it if there is no mark. -/
def beforeMark (mark : List Char) : List Char → Nat
  | [] => 0
  | c :: w => if mark <+: c :: w then 0 else beforeMark mark w + 1

variable {mark : List Char}

theorem beforeMark_of_stands {w : List Char} (h : mark <+: w) : beforeMark mark w = 0 := by
  cases w with
  | nil => rfl
  | cons c w => exact if_pos h

theorem beforeMark_cons {c : Char} {w : List Char} (h : ¬ mark <+: c :: w) :
    beforeMark mark (c :: w) = beforeMark mark w + 1 := if_neg h

theorem beforeMark_le (mark w : List Char) : beforeMark mark w ≤ w.length := by
  induction w with
  | nil => exact Nat.le_refl 0
  | cons c w ih =>
    unfold beforeMark
    split
    · exact Nat.zero_le _
    · exact Nat.succ_le_succ ih

/-- Nowhere further in front does a mark stand. -/
theorem not_stands_of_lt_beforeMark {w : List Char} {k : Nat} (h : k < beforeMark mark w) :
    ¬ mark <+: w.drop k := by
  induction w generalizing k with
  | nil => exact absurd h (Nat.not_lt_zero k)
  | cons c w ih =>
    by_cases hmark : mark <+: c :: w
    · rw [beforeMark_of_stands hmark] at h
      exact absurd h (Nat.not_lt_zero k)
    · rw [beforeMark_cons hmark] at h
      cases k with
      | zero => exact hmark
      | succ k => exact ih (Nat.lt_of_succ_lt_succ h)

/-- Behind what stands in front of it the mark stands, if there is one. -/
theorem stands_behind_beforeMark {w : List Char} (h : mark <:+: w) :
    mark <+: w.drop (beforeMark mark w) := by
  induction w with
  | nil => rwa [List.infix_nil, ← List.prefix_nil] at h
  | cons c w ih =>
    by_cases hmark : mark <+: c :: w
    · rwa [beforeMark_of_stands hmark]
    · rw [beforeMark_cons hmark]
      exact ih ((List.infix_cons_iff.1 h).resolve_left hmark)

theorem beforeMark_of_absent {w : List Char} (h : ¬ mark <:+: w) :
    beforeMark mark w = w.length := by
  induction w with
  | nil => rfl
  | cons c w ih =>
    rw [beforeMark_cons fun hmark => h hmark.isInfix, ih fun hmark => h (List.infix_cons hmark),
      List.length_cons]

end AttrGrammar.Text

/-! ### Looking ahead -/

namespace AttrGrammar.Scan.Cursor
open Text

variable {text : Buffer} {c : Cursor}

theorem advanceBy_atEnd (n : Nat) (h : ¬ c.offset < text.size) : c.advanceBy text n = c := by
  cases n with
  | zero => rfl
  | succ n => rw [advanceBy, atEnd, if_pos (decide_eq_true (Nat.le_of_not_lt h))]

theorem advanceBy_succ (n : Nat) (h : c.offset < text.size) :
    c.advanceBy text (n + 1) = (c.advance text).advanceBy text n := by
  rw [advanceBy, atEnd, if_neg fun hend => Nat.not_le.2 h (of_decide_eq_true hend)]

theorem moveTo_restore_moveTo (c : Cursor) (p q : Position) :
    ((c.moveTo q).restore p).moveTo q = c.moveTo q := by
  by_cases hfar : c.farthest.offset < q.offset
  · simp [moveTo, restore, hfar]
  · simp [moveTo, restore, hfar]

/-- A character that was read and given back is read again as if for the first time. -/
theorem advance_restore_advance (text : Buffer) (c : Cursor) :
    ((c.advance text).restore c.position).advance text = c.advance text := by
  cases hpeek : c.peek? text with
  | none =>
    have hstays : c.advance text = c := by rw [advance, hpeek]
    rw [hstays]
    exact hstays
  | some ch =>
    have hmoves : c.advance text = c.moveTo (c.position.advanced ch) := by rw [advance, hpeek]
    have hagain : ((c.moveTo (c.position.advanced ch)).restore c.position).peek? text = some ch :=
      hpeek
    rw [hmoves, advance, hagain]
    exact moveTo_restore_moveTo c c.position _

theorem advance_restore_advanceBy {n : Nat} (hn : 0 < n) (h : c.offset < text.size) :
    ((c.advance text).restore c.position).advanceBy text n = c.advanceBy text n := by
  obtain ⟨n, rfl⟩ := Nat.exists_eq_succ_of_ne_zero (Nat.ne_of_gt hn)
  have hback : ((c.advance text).restore c.position).offset < text.size := h
  rw [advanceBy_succ n hback, advanceBy_succ n h, advance_restore_advance]

/-- The cursor behind `n` characters, when as many as `ahead` further ones have been looked at. -/
def lookPast (text : Buffer) (n ahead : Nat) (c : Cursor) : Cursor :=
  (c.advanceBy text (n + ahead)).restore (c.advanceBy text n).position

theorem lookPast_atEnd (ahead : Nat) (h : ¬ c.offset < text.size) :
    c.lookPast text 0 ahead = c := by
  rw [lookPast, advanceBy_atEnd _ h, advanceBy_atEnd _ h]
  rfl

theorem lookPast_zero (text : Buffer) (ahead : Nat) (c : Cursor) :
    c.lookPast text 0 ahead = (c.advanceBy text ahead).restore c.position := by
  rw [lookPast, Nat.zero_add]
  rfl

theorem lookPast_succ (n ahead : Nat) (h : c.offset < text.size) :
    c.lookPast text (n + 1) ahead = (c.advance text).lookPast text n ahead := by
  rw [lookPast, Nat.add_right_comm, advanceBy_succ _ h, advanceBy_succ _ h]
  rfl

theorem offset_lookPast {n : Nat} (ahead : Nat) (h : n ≤ text.size - c.offset) :
    (c.lookPast text n ahead).offset = c.offset + n := by
  show (c.advanceBy text n).offset = _
  rw [offset_advanceBy, Nat.min_eq_left h]

end AttrGrammar.Scan.Cursor

namespace AttrGrammar.Parse
open Text Scan Peg

variable {V W : Type}

/-- The state with the cursor elsewhere and everything else as it is. -/
def State.withCursor (s : State V W) (c : Cursor) : State V W :=
  { s with scanner := { s.scanner with cursor := c } }

theorem State.rest_ne_nil_iff {text : Buffer} {s : State V W} :
    s.rest text ≠ [] ↔ s.scanner.cursor.offset < text.size := by
  rw [← List.length_pos_iff, State.length_rest, Nat.sub_pos_iff_lt]
  rfl

/-- One character on, the text that lies ahead is without its first character. -/
theorem State.rest_advance {text : Buffer} {s : State V W}
    (h : s.scanner.cursor.offset < text.size) :
    (s.withCursor (s.scanner.cursor.advance text)).rest text = (s.rest text).tail := by
  show text.toList.drop (s.scanner.cursor.advance text).offset = _
  rw [Cursor.offset_advance h, State.rest, List.tail_drop]
  rfl

namespace Step

variable {setting : Setting V W} {mark : List Char} {s : State V W}

/-! ### One round -/

/-- One character that does not begin a mark. -/
def unmarked (setting : Setting V W) (mark : List Char) : Step V W Match :=
  difference (scanOne setting fun _ => true) (literal setting mark)

theorem scanOne_any_apply (setting : Setting V W) (s : State V W) :
    scanOne setting (fun _ => true) s =
      if s.scanner.cursor.offset < setting.source.text.size then
        .ok (.hit 1) (s.withCursor (s.scanner.cursor.advance setting.source.text))
      else .ok .miss s := by
  rw [scanOne, get_bind_apply]
  by_cases hlt : s.scanner.cursor.offset < setting.source.text.size
  · have hpeek : s.scanner.cursor.peek? setting.source.text = some _ :=
      Array.getElem?_eq_getElem hlt
    rw [hpeek, if_pos hlt]
    rfl
  · have hpeek : s.scanner.cursor.peek? setting.source.text = none :=
      Array.getElem?_eq_none (Nat.le_of_not_lt hlt)
    rw [hpeek, if_neg hlt]
    rfl

theorem literal_apply (setting : Setting V W) (word : List Char) (s : State V W) :
    literal setting word s =
      if word <+: s.rest setting.source.text then
        .ok (.hit word.length)
          (s.withCursor (s.scanner.cursor.advanceBy setting.source.text word.length))
      else .ok .miss s := by
  by_cases hword : word <+: s.rest setting.source.text
  · have hsees : s.scanner.cursor.startsWith setting.source.text word = true :=
      (startsWith_iff word).2 hword
    rw [if_pos hword, literal, bind_apply]
    simp only [seesWord, get_bind_apply, pure_apply, hsees, if_true]
    rfl
  · have hsees : s.scanner.cursor.startsWith setting.source.text word = false :=
      Bool.eq_false_iff.2 (mt (startsWith_iff word).1 hword)
    rw [if_neg hword, literal, bind_apply]
    simp only [seesWord, get_bind_apply, pure_apply, hsees]
    rfl

/-- What a difference does, by the outcomes of its sides. -/
theorem difference_apply (x y : Step V W Match) (s : State V W) :
    difference x y s = match x s with
      | .error e t => .error e t
      | .ok .miss t => .ok .miss t
      | .ok (.hit n) t => match y (t.backAt s.scanner.position) with
        | .error e u => .error e u
        | .ok .miss u => .ok (.hit n) (u.backAt t.scanner.position)
        | .ok (.hit _) u =>
          if t.scanner.offset ≤ u.scanner.offset then .ok .miss (u.backAt s.scanner.position)
          else .ok (.hit n) (u.backAt t.scanner.position) := by
  simp only [difference, bind_apply, place_apply]
  cases x s with
  | error e t => rfl
  | ok m t =>
    cases m with
    | miss => rfl
    | hit n =>
      show (y >>= _) (t.backAt s.scanner.position) = _
      rw [bind_apply]
      dsimp only
      cases y (t.backAt s.scanner.position) with
      | error e u => rfl
      | ok m u =>
        cases m with
        | miss => rfl
        | hit k =>
          show (if (true && decide (t.scanner.offset ≤ u.scanner.offset)) = true then _ else _ :
            Step V W Match) u = _
          by_cases hfar : t.scanner.offset ≤ u.scanner.offset
          · rw [if_pos (by simpa using hfar)]
            exact (if_pos hfar).symm
          · rw [if_neg (by simpa using hfar)]
            exact (if_neg hfar).symm

/-- Where a mark stands, a character and the mark are read, and both are given back. -/
theorem unmarked_atMark (hmark : mark ≠ []) (h : mark <+: s.rest setting.source.text) :
    unmarked setting mark s =
      .ok .miss (s.withCursor (s.scanner.cursor.lookPast setting.source.text 0 mark.length)) := by
  have hlength : 0 < mark.length := List.length_pos_iff.2 hmark
  have hstands : s.scanner.cursor.startsWith setting.source.text mark := (startsWith_iff mark).2 h
  have hlt : s.scanner.cursor.offset < setting.source.text.size := by
    have := length_le_of_standsAt hstands
    omega
  have hback : mark <+: ((s.withCursor (s.scanner.cursor.advance setting.source.text)).backAt
      s.scanner.position).rest setting.source.text := h
  have hfar : (s.scanner.cursor.advance setting.source.text).offset ≤
      (s.scanner.cursor.advanceBy setting.source.text mark.length).offset := by
    rw [Cursor.offset_advance hlt, Cursor.offset_advanceBy_word hstands]
    omega
  have hword : ((s.scanner.cursor.advance setting.source.text).restore
      s.scanner.position).advanceBy setting.source.text mark.length =
        s.scanner.cursor.advanceBy setting.source.text mark.length :=
    Cursor.advance_restore_advanceBy hlength hlt
  rw [unmarked, difference_apply, scanOne_any_apply, if_pos hlt]
  dsimp only
  rw [literal_apply, if_pos hback, Cursor.lookPast_zero, ← hword]
  rw [← hword] at hfar
  exact if_pos hfar

theorem unmarked_atEnd (h : ¬ s.scanner.cursor.offset < setting.source.text.size) :
    unmarked setting mark s = .ok .miss s := by
  rw [unmarked, difference_apply, scanOne_any_apply, if_neg h]

/-- Elsewhere a character is read. -/
theorem unmarked_inside (h : s.scanner.cursor.offset < setting.source.text.size)
    (hnone : ¬ mark <+: s.rest setting.source.text) :
    unmarked setting mark s =
      .ok (.hit 1) (s.withCursor (s.scanner.cursor.advance setting.source.text)) := by
  have hback : ¬ mark <+: ((s.withCursor (s.scanner.cursor.advance setting.source.text)).backAt
      s.scanner.position).rest setting.source.text := hnone
  rw [unmarked, difference_apply, scanOne_any_apply, if_pos h]
  dsimp only
  rw [literal_apply, if_neg hback]
  rfl

/-! ### All rounds -/

/-- As many rounds as it takes, by induction on the text that is left: each round that goes on has
read a character of it. -/
theorem repeatMany_upToMark (hmark : mark ≠ []) {skip : Step V W Unit} {w : List Char}
    (hw : s.rest setting.source.text = w) {fuel : Nat} (hfuel : w.length < fuel)
    (hskip : ∀ t : State V W, t.level = s.level → skip t = .ok () t) (count : Nat) :
    repeatMany skip (unmarked setting mark) fuel count s =
      .ok (count + beforeMark mark w) (s.withCursor
        (s.scanner.cursor.lookPast setting.source.text (beforeMark mark w) mark.length)) := by
  induction w generalizing s fuel count with
  | nil =>
    obtain ⟨fuel, rfl⟩ := Nat.exists_eq_succ_of_ne_zero (Nat.ne_of_gt hfuel)
    have hend : ¬ s.scanner.cursor.offset < setting.source.text.size := fun hlt =>
      State.rest_ne_nil_iff.2 hlt hw
    rw [repeatMany_succ (hskip s rfl), unmarked_atEnd hend, beforeMark,
      Cursor.lookPast_atEnd mark.length hend]
    rfl
  | cons c w ih =>
    obtain ⟨fuel, rfl⟩ := Nat.exists_eq_succ_of_ne_zero (Nat.ne_of_gt (Nat.zero_lt_of_lt hfuel))
    have hlt : s.scanner.cursor.offset < setting.source.text.size :=
      State.rest_ne_nil_iff.1 (hw ▸ List.cons_ne_nil c w)
    rw [repeatMany_succ (hskip s rfl)]
    by_cases hstands : mark <+: c :: w
    · rw [unmarked_atMark hmark (hw ▸ hstands), beforeMark_of_stands hstands]
      rfl
    · have hrest : (s.withCursor (s.scanner.cursor.advance setting.source.text)).rest
          setting.source.text = w := by
        rw [State.rest_advance hlt, hw, List.tail_cons]
      have hmoved : (s.withCursor (s.scanner.cursor.advance setting.source.text)).scanner.offset =
          s.scanner.offset + 1 := Cursor.offset_advance hlt
      rw [unmarked_inside hlt (hw ▸ hstands), beforeMark_cons hstands]
      dsimp only
      rw [if_neg (by omega), ih hrest (Nat.lt_of_succ_lt_succ hfuel) hskip, Nat.add_right_comm,
        Nat.add_assoc, Cursor.lookPast_succ _ _ hlt]
      rfl

theorem repeated_upToMark (hmark : mark ≠ []) {skip : Step V W Unit}
    (hskip : ∀ t : State V W, t.level = s.level → skip t = .ok () t) :
    repeated setting skip (unmarked setting mark) 0 s =
      .ok (.hit (beforeMark mark (s.rest setting.source.text))) (s.withCursor
        (s.scanner.cursor.lookPast setting.source.text
          (beforeMark mark (s.rest setting.source.text)) mark.length)) := by
  have hlength := State.length_rest setting.source.text s
  have hfuel : (s.rest setting.source.text).length < rounds setting s.scanner.position := by
    rw [hlength]
    exact Nat.lt_succ_self _
  have hread : (s.scanner.cursor.lookPast setting.source.text
      (beforeMark mark (s.rest setting.source.text)) mark.length).offset - s.scanner.offset =
        beforeMark mark (s.rest setting.source.text) := by
    rw [Cursor.offset_lookPast mark.length (hlength ▸ beforeMark_le mark _)]
    exact Nat.add_sub_cancel_left ..
  simp only [repeated, bind_apply, place_apply, repeatMany_upToMark hmark rfl hfuel hskip 0]
  exact congrArg (fun n => EStateM.Result.ok (Match.hit n) _) hread

end Step

/-! ### Trees -/

/-- Any character that does not begin a mark, over and over, reads the text in front of the first
mark that stands ahead, and all that is left if there is none. It does so from every place and in
every state in which no skip rule applies, whatever the rules are, and changes nothing but the
cursor, which has looked at the mark too. -/
theorem evalParser_upToMark (setting : Setting V W) (call : RuleId → Step V W Match)
    {mark : String} (hmark : mark ≠ "") (s : State V W)
    (h : s.scanner.activeSkip setting.skipRule = none) :
    let ahead := s.rest setting.source.text
    ∃ n t, evalParser setting call (.star (.difference .anyChar (.literal mark))) s =
        .ok (.hit n) t ∧
      t.scanner.offset = s.scanner.offset + n ∧
      (∀ k < n, ¬ mark.toList <+: ahead.drop k) ∧
      (mark.toList <+: ahead.drop n ∨ ¬ mark.toList <:+: ahead ∧ n = ahead.length) ∧
      t = s.withCursor (s.scanner.cursor.lookPast setting.source.text n mark.toList.length) := by
  intro ahead
  have hskip (t : State V W) (ht : t.level = s.level) :
      Step.skip setting call t = .ok () t :=
    Step.skip_of_inactive ((State.activeSkip_of_level ht _).trans h) _
  have hlist : mark.toList ≠ [] := fun hnil => hmark (String.toList_eq_nil_iff.1 hnil)
  have hrun : evalParser setting call (.star (.difference .anyChar (.literal mark))) s = _ :=
    Step.repeated_upToMark hlist hskip
  refine ⟨beforeMark mark.toList ahead, _, hrun, ?_, fun _ hk => not_stands_of_lt_beforeMark hk,
    ?_, rfl⟩
  · exact Cursor.offset_lookPast _ (State.length_rest setting.source.text s ▸ beforeMark_le _ _)
  · by_cases hoccurs : mark.toList <:+: ahead
    · exact .inl (stands_behind_beforeMark hoccurs)
    · exact .inr ⟨hoccurs, beforeMark_of_absent hoccurs⟩

/-- Up to the end of a character data section in a token group, where a bracket stands in front of
it. -/
theorem evalParser_upToMark_bracket :
    let setting : Setting Unit Unit :=
      { spacedSetting with source := ⟨#[' ', 'a', ']', ']', ']', '>'], 0, ""⟩ }
    let s : State Unit Unit := { State.start none () with
      scanner := (Scanner.start none).beginToken }
    "]]>" ≠ "" ∧ s.scanner.activeSkip setting.skipRule = none ∧
      ∃ t, evalParser setting (evalRule setting 2)
          (.star (.difference .anyChar (.literal "]]>"))) s = .ok (.hit 3) t ∧
        t.scanner.offset = 3 := by
  intro setting s
  have hmark : "]]>" ≠ "" := by decide
  obtain ⟨n, t, hrun, hoffset, hbefore, hstops, -⟩ :=
    evalParser_upToMark setting (evalRule setting 2) hmark s rfl
  have hstands : "]]>".toList <+: (s.rest setting.source.text).drop 3 := by decide
  have hnone : ∀ k < 3, ¬ "]]>".toList <+: (s.rest setting.source.text).drop k := by decide
  have hle : n ≤ 3 := Nat.le_of_not_lt fun hlt => hbefore 3 hlt hstands
  obtain hstops | ⟨habsent, -⟩ := hstops
  · obtain rfl : n = 3 := Nat.le_antisymm hle (Nat.le_of_not_lt fun hlt => hnone n hlt hstops)
    exact ⟨hmark, rfl, t, hrun, hoffset⟩
  · exact absurd ⟨[' ', 'a', ']'], [], rfl⟩ habsent

end AttrGrammar.Parse

import AttrGrammar.Proofs.Reader
import AttrGrammar.Proofs.Recognition
import AttrGrammar.Proofs.StackDiscipline
import AttrGrammar.Proofs.Tracing

/-! Evaluation denotes readers. From a state that stands in the text and writes no trace, a step that
denotes a reader ends as the reader does on the text ahead, in the frame and the world of that state:
it leaves the same text, frame and world, or it breaks off for the same reason. A reader knows
neither positions nor the value stack, and its actions know their text, but not where it stands; so
the actions of a grammar have to be of this kind. There is one lemma for each combinator, and from
them the result about trees and rules, where the limit on nesting and the fuel become the levels that
are left. -/

namespace AttrGrammar.Peg
open Text

variable {V W : Type}

/-- The action has regard to its text, but not to the place where it stands. -/
def Textual (run : ActionContext V W → ActionContext V W) : Prop :=
  ∀ (ctx : ActionContext V W) (text : Slice) (span : Span) (fileName : String),
    text.toList = ctx.text.toList →
      run { ctx with text, span, fileName } = { run ctx with text, span, fileName }

/-- A requirement on the references and actions of a tree in which they have been replaced. -/
theorem Parser.every_map {ρ ρ' α α' : Type} {onRule : ρ → ρ'} {onAction : α → α'}
    {ref : ρ' → Nat → Prop} {act : α' → Prop} {p : Parser V ρ α} :
    (p.map onRule onAction).Every ref act ↔
      p.Every (fun rule n => ref (onRule rule) n) fun a => act (onAction a) := by
  induction p with
  | keyword word continuation => cases continuation <;> rfl
  | _ => simp only [map, Every, *]

/-- What such an action does, it does from its frame, its text and the world alone. -/
theorem Textual.run_eq {run : ActionContext V W → ActionContext V W} (h : Textual run)
    (frame : Frame V) (text : Slice) (span : Span) (fileName : String) (world : W) :
    run { frame, text, span, fileName, pass := true, error := none, world } =
      { run (.of frame text.toList world) with text, span, fileName } :=
  h (.of frame text.toList world) text span fileName (toList_wholeText _).symm

end AttrGrammar.Peg

namespace AttrGrammar.Parse
open Text Scan Peg

variable {V W : Type}

/-- The reason for which a failure stops reading. -/
def Failure.reason : Failure → Stop
  | .outOfFuel | .error (.recursionLimitExceeded ..) => .tooDeep
  | .error (.expectation ..) => .expected
  | .error (.exception reason _) => .raised reason
  | .error _ => .faulty

/-- The state stands in the text, with so many activations open; it is told whether the skip rule may
run, and nothing is traced. -/
structure State.Stands (text : Buffer) (depth : Nat) (skips : Bool) (s : State V W) : Prop where
  inBounds : s.scanner.offset ≤ text.size
  depth : s.depth = depth
  skips : s.skips = skips
  untraced : s.scanner.log = none

/-- Nothing is traced in `t`, and the stack is as it was in `s`. -/
structure Kept (s t : State V W) : Prop where
  untraced : t.scanner.log = none
  stack : t.stack = s.stack

/-- From `s` to `t` so many characters were read, and all else was kept. -/
structure Moved (text : Buffer) (s : State V W) (n : Nat) (t : State V W) : Prop
    extends Past text s n t, Kept s t

/-- How a reader tells that a step has ended in a state. -/
def State.outcome (text : Buffer) (m : Match) (t : State V W) :
    Outcome (Frame V) (Frame V) W :=
  match m with
  | .hit _ => .hit (t.rest text) t.frame t.world
  | .miss => .miss t.frame t.world

variable {text : Buffer} {depth : Nat} {skips : Bool} {s t u : State V W} {m : Match} {n k : Nat}

@[simp]
theorem State.outcome_hit (text : Buffer) (n : Nat) (t : State V W) :
    t.outcome text (.hit n) = .hit (t.rest text) t.frame t.world := rfl

@[simp]
theorem State.outcome_miss (text : Buffer) (t : State V W) :
    t.outcome text .miss = .miss t.frame t.world := rfl

theorem State.Stands.kept (hs : s.Stands text depth skips) : Kept s s := ⟨hs.untraced, rfl⟩

theorem Moved.refl (hs : s.Stands text depth skips) : Moved text s 0 s :=
  ⟨.refl hs.inBounds, hs.kept⟩

theorem Moved.trans (h : Moved text s n t) (h' : Moved text t k u) : Moved text s (n + k) u :=
  ⟨h.toPast.trans h'.toPast, h'.untraced, h'.stack.trans h.stack⟩

theorem Moved.stands (h : Moved text s n t) (hs : s.Stands text depth skips) :
    t.Stands text depth skips :=
  ⟨h.inBounds, (State.level_eq_iff.1 h.level).1.trans hs.depth, h.skips.trans hs.skips, h.untraced⟩

/-- The state that goes back to the place of `s`. -/
theorem Moved.rewound (h : Moved text s n t) (hs : s.Stands text depth skips) :
    Moved text s 0 { t with scanner := t.scanner.mapCursor (·.restore s.scanner.position) } :=
  ⟨.rewound hs.inBounds h.level, h.untraced, h.stack⟩

theorem Moved.length_lt (h : Moved text s n t) :
    (t.rest text).length < (s.rest text).length ↔ 0 < n := by
  have hle := h.length_le
  rw [h.rest, List.length_drop]
  omega

namespace Step

/-- The step ends as the reader does. -/
structure Denotes (text : Buffer) (depth : Nat) (skips : Bool) (x : Step V W Match)
    (r : Reader V W) : Prop where
  reading : Reading text x
  outcome : ∀ s : State V W, s.Stands text depth skips →
    x.Ensures s
      (fun m t => Kept s t ∧ r (s.rest text) s.frame s.world = t.outcome text m)
      fun e t => r (s.rest text) s.frame s.world = .stop e.reason t.world

/-- The same for a step between two others, which may read nothing and never misses. -/
def Spans (text : Buffer) (depth : Nat) (skips : Bool) (x : Step V W Unit) (r : Reader V W) : Prop :=
  ∀ s : State V W, s.Stands text depth skips →
    x.Ensures s
      (fun _ t => (∃ n, Moved text s n t) ∧
        r (s.rest text) s.frame s.world = .hit (t.rest text) t.frame t.world)
      fun e t => r (s.rest text) s.frame s.world = .stop e.reason t.world

variable {x y : Step V W Match} {rx ry rb : Reader V W} {between : Step V W Unit}
  {setting : Setting V W}

theorem Denotes.run (h : Denotes text depth skips x rx) (hs : s.Stands text depth skips) :
    x.Ensures s
      (fun m t => Moved text s m.length t ∧
        rx (s.rest text) s.frame s.world = t.outcome text m)
      fun e t => rx (s.rest text) s.frame s.world = .stop e.reason t.world :=
  ((h.reading s).and (h.outcome s hs)).mono
    (fun _ _ h => ⟨⟨h.1.past hs.inBounds, h.2.1⟩, h.2.2⟩) fun _ _ h => h.2

/-- The step reads what its match tells, so that much is known of the state in which it ends. -/
theorem Denotes.of_reading (hreading : Reading text x)
    (h : ∀ s : State V W, s.Stands text depth skips →
      x.Ensures s
        (fun m t => Past text s m.length t →
          Kept s t ∧ rx (s.rest text) s.frame s.world = t.outcome text m)
        fun e t => rx (s.rest text) s.frame s.world = .stop e.reason t.world) :
    Denotes text depth skips x rx :=
  ⟨hreading, fun s hs => ((hreading s).and (h s hs)).mono
    (fun _ _ h => h.2 (h.1.past hs.inBounds)) fun _ _ h => h.2⟩

/-- A second attempt at the place of `s`, after a first one has left `t` there. -/
theorem Denotes.retry (h : Denotes text depth skips x rx) (hmoved : Moved text s 0 t)
    (hs : s.Stands text depth skips) :
    x.Ensures t
      (fun m u => Moved text s m.length u ∧
        rx (s.rest text) t.frame t.world = u.outcome text m)
      fun e u => rx (s.rest text) t.frame t.world = .stop e.reason u.world := by
  have hrest : t.rest text = s.rest text := by rw [hmoved.rest, List.drop_zero]
  rw [← hrest]
  refine (h.run (hmoved.stands hs)).imp fun m u hu => ⟨?_, hu.2⟩
  have hsum := hmoved.trans hu.1
  rwa [Nat.zero_add] at hsum

/-! ### Characters and words -/

theorem Denotes.scanOne (depth : Nat) (skips : Bool) (setting : Setting V W)
    (accept : Char → Bool) :
    Denotes setting.source.text depth skips (scanOne setting accept) (.oneChar accept) := by
  refine .of_reading (.scanOne setting accept) fun s hs => ?_
  simp only [Step.scanOne, ensures_bind, ensures_get]
  split
  · next c hc =>
    simp only [ensures_ite, ensures_bind, ensures_scan, ensures_pure]
    have hrest := rest_eq_cons (s := s) hc
    split
    · next haccept =>
      intro hpast
      refine ⟨⟨hs.untraced, rfl⟩, ?_⟩
      rw [State.outcome_hit, hpast.rest, hrest, Reader.oneChar, if_pos haccept]
      rfl
    · next haccept =>
      intro _
      refine ⟨⟨hs.untraced, rfl⟩, ?_⟩
      rw [State.outcome_miss, hrest, Reader.oneChar, if_neg haccept]
  · next hnone =>
    intro _
    refine ⟨⟨hs.untraced, rfl⟩, ?_⟩
    rw [State.outcome_miss, rest_eq_nil hnone]
    rfl

theorem Denotes.atEnd (depth : Nat) (skips : Bool) (setting : Setting V W) :
    Denotes setting.source.text depth skips (atEnd setting) .atEnd := by
  refine .of_reading (.atEnd setting) fun s hs => ?_
  simp only [Step.atEnd, ensures_bind, ensures_get, ensures_pure, Cursor.atEnd, decide_eq_true_eq]
  split
  · next h =>
    intro _
    refine ⟨⟨hs.untraced, rfl⟩, ?_⟩
    rw [State.outcome_hit, rest_eq_nil (Array.getElem?_eq_none h)]
    rfl
  · next h =>
    intro _
    refine ⟨⟨hs.untraced, rfl⟩, ?_⟩
    rw [State.outcome_miss, rest_eq_cons (Array.getElem?_eq_getElem (Nat.lt_of_not_le h))]
    rfl

theorem Denotes.literal (depth : Nat) (skips : Bool) (setting : Setting V W)
    (word : List Char) :
    Denotes setting.source.text depth skips (literal setting word) (.literal word) := by
  refine .of_reading (.literal setting word) fun s hs => ?_
  simp only [Step.literal, seesWord, ensures_bind, ensures_get, ensures_pure, ensures_ite,
    ensures_scan, startsWith_iff]
  split
  · next h =>
    intro hpast
    refine ⟨⟨hs.untraced, rfl⟩, ?_⟩
    rw [State.outcome_hit, hpast.rest, Reader.literal, if_pos h]
    rfl
  · next h =>
    intro _
    refine ⟨⟨hs.untraced, rfl⟩, ?_⟩
    rw [State.outcome_miss, Reader.literal, if_neg h]

/-- A test that stays where it is and ends as a reader does, whatever that reads. -/
def Foretells (text : Buffer) (depth : Nat) (skips : Bool) (x : Step V W Bool)
    (r : Reader V W) : Prop :=
  Staying x ∧ ∀ s : State V W, s.Stands text depth skips →
    x.Ensures s
      (fun b t => Moved text s 0 t ∧
        if b then ∃ rest, r (s.rest text) s.frame s.world = .hit rest t.frame t.world
        else r (s.rest text) s.frame s.world = .miss t.frame t.world)
      fun e t => r (s.rest text) s.frame s.world = .stop e.reason t.world

theorem Foretells.seesIdCont (depth : Nat) (skips : Bool) (setting : Setting V W) :
    Foretells setting.source.text depth skips (seesIdCont setting) (.oneChar isIdCont) := by
  refine ⟨.seesIdCont setting, fun s hs => ?_⟩
  simp only [Step.seesIdCont, ensures_bind, ensures_get, ensures_pure]
  refine ⟨.refl hs, ?_⟩
  cases hc : setting.source.text[s.scanner.offset]? with
  | none =>
      rw [rest_eq_nil hc, show s.scanner.cursor.peek? setting.source.text = none from hc]
      rfl
  | some c =>
      rw [rest_eq_cons hc, show s.scanner.cursor.peek? setting.source.text = some c from hc,
        Option.any_some, Reader.oneChar]
      split
      · exact ⟨_, rfl⟩
      · rfl

theorem Denotes.keyword {goesOn : Step V W Bool} {r : Reader V W}
    (hgoesOn : Foretells setting.source.text depth skips goesOn r) (word : List Char) :
    Denotes setting.source.text depth skips (keyword setting word goesOn) (.keyword word r) := by
  refine ⟨.keyword hgoesOn.1 word, fun s hs => ?_⟩
  simp only [Step.keyword, seesWord, ensures_bind, ensures_get, ensures_pure, ensures_ite,
    ensures_place, ensures_scan, ensures_missAt, Reader.keyword, Reader.literal]
  split
  · next h =>
    have hmoved : Moved setting.source.text s word.length
        { s with scanner := s.scanner.mapCursor (·.advanceBy setting.source.text word.length) } :=
      ⟨(reads_word h).past hs.inBounds, ⟨hs.untraced, rfl⟩⟩
    have hrun := hgoesOn.2 _ (hmoved.stands hs)
    rw [hmoved.rest] at hrun
    rw [if_pos ((startsWith_iff word).1 h), Outcome.andThen_hit]
    refine hrun.mono (fun goes t ht => ?_) fun e t he => ?_
    · obtain ⟨hstays, hgoes⟩ := ht
      have hall := hmoved.trans hstays
      cases goes with
      | true =>
          obtain ⟨rest, hrest⟩ := hgoes
          exact ⟨(hall.rewound hs).toKept, by rw [hrest]; rfl⟩
      | false =>
          rw [Nat.add_zero] at hall
          have hmiss : r _ s.frame s.world = .miss t.frame t.world := hgoes
          refine ⟨hall.toKept, ?_⟩
          rw [hmiss, State.outcome_hit, hall.rest]
    · rw [show r _ s.frame s.world = .stop e.reason t.world from he]
  · next h =>
    rw [if_neg fun hword => h ((startsWith_iff word).2 hword)]
    exact ⟨hs.kept, rfl⟩

theorem consumed_eq_take (h : Past text s n t) :
    consumed (s.rest text) (t.rest text) = (s.rest text).take n := by
  have hle := h.length_le
  rw [consumed, h.rest, List.length_drop, Nat.sub_sub_self hle]

theorem Denotes.keywordList (hx : Denotes setting.source.text depth skips x rx)
    (words : List String) :
    Denotes setting.source.text depth skips (keywordList setting x words)
      (.keywordList rx words) := by
  refine ⟨hx.reading.keywordList words, fun s hs => ?_⟩
  simp only [Step.keywordList, ensures_bind, ensures_place, ensures_ite, ensures_pure,
    ensures_missAt, Reader.keywordList]
  refine (hx.run hs).mono (fun m t h => ?_) fun e t he => by rw [he]; rfl
  obtain ⟨ht, hv⟩ := h
  rw [hv]
  cases m with
  | miss => exact ⟨ht.toKept, rfl⟩
  | hit n =>
      rw [if_pos (Match.isHit_hit n), textBetween_eq_take setting.source ht.toPast,
        State.outcome_hit, Outcome.andThen_hit, consumed_eq_take ht.toPast]
      split
      · exact ⟨ht.toKept, rfl⟩
      · exact ⟨(ht.rewound hs).toKept, rfl⟩

/-! ### Sequences and alternatives -/

/-- What a step does behind a bridge, told from the place where the bridge begins. -/
theorem Spans.followed (hb : Spans text depth skips between rb)
    (hx : Denotes text depth skips x rx) (hs : s.Stands text depth skips) :
    between.Ensures s
      (fun _ t => x.Ensures t
        (fun m u => (∃ k, Moved text s (k + m.length) u) ∧
          rb.seq rx (s.rest text) s.frame s.world = u.outcome text m)
        fun e u => rb.seq rx (s.rest text) s.frame s.world = .stop e.reason u.world)
      fun e t => rb.seq rx (s.rest text) s.frame s.world = .stop e.reason t.world := by
  refine (hb s hs).mono (fun _ t h => ?_) fun e t he => by rw [Reader.seq, he]; rfl
  obtain ⟨⟨k, ht⟩, hv⟩ := h
  have hseq : rb.seq rx (s.rest text) s.frame s.world = rx (t.rest text) t.frame t.world := by
    rw [Reader.seq, hv]
    rfl
  rw [hseq]
  exact (hx.run (ht.stands hs)).imp fun m u h => ⟨⟨k, ht.trans h.1⟩, h.2⟩

theorem Denotes.sequence (hmoving : Moving text between) (hb : Spans text depth skips between rb)
    (hx : Denotes text depth skips x rx) (hy : Denotes text depth skips y ry) :
    Denotes text depth skips (sequence between x y) (rx.seq (rb.seq ry)) := by
  refine ⟨.sequence hmoving hx.reading hy.reading, fun s hs => ?_⟩
  simp only [Step.sequence, ensures_bind, ensures_place, ensures_ite, ensures_matchedSince,
    ensures_missAt]
  refine (hx.run hs).mono (fun m t h => ?_) fun e t he => by rw [Reader.seq, he]; rfl
  obtain ⟨ht, hv⟩ := h
  have hseq : rx.seq (rb.seq ry) (s.rest text) s.frame s.world =
      (t.outcome text m).andThen (rb.seq ry) := by rw [← hv]; rfl
  rw [hseq]
  cases m with
  | miss => exact ⟨(ht.rewound hs).toKept, rfl⟩
  | hit n =>
      rw [if_pos (Match.isHit_hit n)]
      refine (hb.followed hy (ht.stands hs)).imp fun _ u h => h.imp fun m' v h => ?_
      obtain ⟨⟨k, hbehind⟩, hv'⟩ := h
      have hv := ht.trans hbehind
      rw [State.outcome_hit, Outcome.andThen_hit, hv']
      cases m' with
      | miss => exact ⟨(hv.rewound hs).toKept, rfl⟩
      | hit j => exact ⟨hv.toKept, rfl⟩

theorem Denotes.alternative (hx : Denotes text depth skips x rx)
    (hy : Denotes text depth skips y ry) :
    Denotes text depth skips (alternative x y) (.choice rx ry) := by
  refine ⟨.alternative hx.reading hy.reading, fun s hs => ?_⟩
  simp only [Step.alternative, ensures_bind, ensures_place, ensures_ite, ensures_pure,
    ensures_rewind, ensures_missAt, Reader.choice]
  refine (hx.run hs).mono (fun m t h => ?_) fun e t he => by rw [he]; rfl
  obtain ⟨ht, hv⟩ := h
  rw [hv]
  cases m with
  | hit n => exact ⟨ht.toKept, rfl⟩
  | miss =>
      refine (hy.retry (ht.rewound hs) hs).imp fun m' u h => ?_
      obtain ⟨hu, hv'⟩ := h
      rw [State.outcome_miss, Outcome.orElse_miss, hv']
      cases m' with
      | hit n => exact ⟨hu.toKept, rfl⟩
      | miss => exact ⟨(hu.rewound hs).toKept, rfl⟩

theorem Denotes.optional (hx : Denotes text depth skips x rx) :
    Denotes text depth skips (optional x) (.optional rx) := by
  refine ⟨hx.reading.optional, fun s hs => ?_⟩
  simp only [Step.optional, ensures_bind, ensures_place, ensures_ite, ensures_pure, ensures_rewind,
    Reader.optional, Reader.choice]
  refine (hx.run hs).mono (fun m t h => ?_) fun e t he => by rw [he]; rfl
  obtain ⟨ht, hv⟩ := h
  rw [hv]
  cases m with
  | hit n => exact ⟨ht.toKept, rfl⟩
  | miss => exact ⟨(ht.rewound hs).toKept, rfl⟩

theorem Denotes.expectation (hx : Denotes text depth skips x rx) (expected : String) :
    Denotes text depth skips (orElse x fun start => failExpectingHere setting expected start)
      (.expect rx) := by
  refine ⟨hx.reading.expectation expected, fun s hs => ?_⟩
  simp only [orElse, failExpectingHere, failExpecting, ensures_bind, ensures_place, ensures_ite,
    ensures_pure, ensures_fail, Reader.expect, Reader.choice]
  refine (hx.run hs).mono (fun m t h => ?_) fun e t he => by rw [he]; rfl
  obtain ⟨ht, hv⟩ := h
  rw [hv]
  cases m with
  | hit n => exact ⟨ht.toKept, rfl⟩
  | miss => rfl

/-! ### Two attempts at one place -/

theorem Denotes.difference (hx : Denotes text depth skips x rx)
    (hy : Denotes text depth skips y ry) :
    Denotes text depth skips (difference x y) (.difference rx ry) := by
  refine ⟨.difference hx.reading hy.reading, fun s hs => ?_⟩
  simp only [Step.difference, ensures_bind, ensures_place, ensures_ite, ensures_pure,
    ensures_rewind, ensures_offset, ensures_missAt, Reader.difference]
  refine (hx.run hs).mono (fun m t h => ?_) fun e t he => by rw [he]; rfl
  obtain ⟨ht, hv⟩ := h
  rw [hv]
  cases m with
  | miss => exact ⟨ht.toKept, rfl⟩
  | hit n =>
      rw [if_pos (Match.isHit_hit n), State.outcome_hit, Outcome.andThen_hit]
      refine (hy.retry (ht.rewound hs) hs).mono (fun m' u h => ?_) fun e u he => ?_
      · obtain ⟨hu, hv'⟩ := h
        have hback : Kept s
            { u with scanner := u.scanner.mapCursor (·.restore t.scanner.position) } :=
          ⟨hu.untraced, hu.stack⟩
        rw [show ry (s.rest text) t.frame t.world = u.outcome text m' from hv']
        cases m' with
        | miss => exact ⟨hback, rfl⟩
        | hit k =>
            have hstop : t.scanner.position.offset ≤ u.scanner.offset ↔
                (u.rest text).length ≤ (t.rest text).length := by
              have hn := ht.length_le
              have hk := hu.length_le
              rw [ht.rest, hu.rest, Scanner.offset_position, ht.offset, hu.offset]
              simp only [List.length_drop, Match.length_hit] at *
              omega
            simp only [Match.isHit_hit, Bool.true_and, decide_eq_true_eq, hstop,
              State.outcome_hit]
            split
            · exact ⟨(hu.rewound hs).toKept, rfl⟩
            · exact ⟨hback, rfl⟩
      · rw [show ry (s.rest text) t.frame t.world = .stop e.reason u.world from he]

theorem Denotes.exclusiveOr (hx : Denotes text depth skips x rx)
    (hy : Denotes text depth skips y ry) :
    Denotes text depth skips (exclusiveOr x y) (.exclusiveOr rx ry) := by
  refine ⟨.exclusiveOr hx.reading hy.reading, fun s hs => ?_⟩
  simp only [Step.exclusiveOr, ensures_bind, ensures_place, ensures_rewind, Reader.exclusiveOr]
  refine (hx.run hs).mono (fun m t h => ?_) fun e t he => by rw [he]
  obtain ⟨ht, hv⟩ := h
  rw [hv]
  have hretry := hy.retry (ht.rewound hs) hs
  cases m with
  | miss =>
      refine hretry.imp fun m' u h => ?_
      obtain ⟨hu, hv'⟩ := h
      rw [State.outcome_miss]
      dsimp only
      rw [show ry (s.rest text) t.frame t.world = u.outcome text m' from hv']
      cases m' with
      | miss => exact ⟨(hu.rewound hs).toKept, rfl⟩
      | hit k => exact ⟨hu.toKept, rfl⟩
  | hit n =>
      refine hretry.mono (fun m' u h => ?_) fun e u he => ?_
      · obtain ⟨hu, hv'⟩ := h
        rw [State.outcome_hit]
        dsimp only
        rw [show ry (s.rest text) t.frame t.world = u.outcome text m' from hv']
        cases m' with
        | miss => exact ⟨⟨hu.untraced, hu.stack⟩, rfl⟩
        | hit k => exact ⟨(hu.rewound hs).toKept, rfl⟩
      · rw [State.outcome_hit]
        dsimp only
        rw [show ry (s.rest text) t.frame t.world = .stop e.reason u.world from he]

theorem Denotes.intersection (hx : Denotes text depth skips x rx)
    (hy : Denotes text depth skips y ry) :
    Denotes text depth skips (intersection x y) (.intersection rx ry) := by
  refine ⟨.intersection hx.reading hy.reading, fun s hs => ?_⟩
  simp only [Step.intersection, ensures_bind, ensures_place, ensures_ite, ensures_pure,
    ensures_rewind, ensures_offset, ensures_missAt, Reader.intersection]
  refine (hx.run hs).mono (fun m t h => ?_) fun e t he => by rw [he]; rfl
  obtain ⟨ht, hv⟩ := h
  rw [hv]
  cases m with
  | miss => exact ⟨ht.toKept, rfl⟩
  | hit n =>
      rw [if_pos (Match.isHit_hit n), State.outcome_hit, Outcome.andThen_hit]
      refine (hy.retry (ht.rewound hs) hs).mono (fun m' u h => ?_) fun e u he => ?_
      · obtain ⟨hu, hv'⟩ := h
        rw [show ry (s.rest text) t.frame t.world = u.outcome text m' from hv']
        cases m' with
        | miss => exact ⟨(hu.rewound hs).toKept, rfl⟩
        | hit k =>
            have hstop : u.scanner.offset = t.scanner.offset ↔
                (u.rest text).length = (t.rest text).length := by
              have hn := ht.length_le
              have hk := hu.length_le
              rw [ht.rest, hu.rest, ht.offset, hu.offset]
              simp only [List.length_drop, Match.length_hit] at *
              omega
            simp only [Match.isHit_hit, Bool.true_and, decide_eq_true_eq, hstop,
              State.outcome_hit, Outcome.andThen_hit]
            split
            · next hsame =>
              refine ⟨hu.toKept, ?_⟩
              have hoffset : u.scanner.offset = t.scanner.offset := hstop.2 hsame
              rw [State.rest, State.rest, hoffset]
            · exact ⟨(hu.rewound hs).toKept, rfl⟩
      · rw [show ry (s.rest text) t.frame t.world = .stop e.reason u.world from he]
        rfl

/-! ### Loops

The steps count their rounds, and readers look at the text that is left. A round that does not end
its loop takes a character, so the rounds that a step may have are enough. -/

theorem progress_outcome (hmoved : Moved text t m.length u)
    (hv : rx (t.rest text) t.frame t.world = u.outcome text m) :
    rx.progress (t.rest text) t.frame t.world =
      if m.length = 0 then .miss u.frame u.world else .hit (u.rest text) u.frame u.world := by
  rw [Reader.progress, hv]
  cases m with
  | miss => rfl
  | hit n =>
      have hlt : (u.rest text).length < (t.rest text).length ↔ ¬ n = 0 :=
        hmoved.length_lt.trans Nat.pos_iff_ne_zero
      rw [State.outcome_hit, Outcome.andThen_hit, Match.length_hit]
      by_cases hn : n = 0
      · rw [if_neg (mt hlt.1 (not_not_intro hn)), if_pos hn]
      · rw [if_pos (hlt.2 hn), if_neg hn]

/-- The rounds behind the first one. -/
theorem repeatMany_iterated (hb : Spans text depth skips between rb)
    (hx : Denotes text depth skips x rx) (fuel count : Nat) (s : State V W) (hcount : 0 < count)
    (hfuel : text.size - s.scanner.offset < fuel) (hs : s.Stands text depth skips) :
    (repeatMany between x fuel count).Ensures s
      (fun c t => 0 < c ∧ (∃ n, Moved text s n t) ∧
        Reader.iterate (rb.seq rx.progress) (s.rest text) s.frame s.world =
          .hit (t.rest text) t.frame t.world)
      fun e t => Reader.iterate (rb.seq rx.progress) (s.rest text) s.frame s.world =
        .stop e.reason t.world := by
  induction fuel generalizing count s with
  | zero => omega
  | succ fuel ih =>
      simp only [Step.repeatMany, skipBefore, if_pos hcount, ensures_bind, ensures_place,
        ensures_offset, ensures_ite, ensures_rewind, ensures_pure]
      refine (hb s hs).mono (fun _ t h => ?_) fun e t he =>
        Reader.iterate_stop (by rw [Reader.seq, he]; rfl)
      obtain ⟨⟨k, ht⟩, hv⟩ := h
      have hround : rb.seq rx.progress (s.rest text) s.frame s.world =
          rx.progress (t.rest text) t.frame t.world := by
        rw [Reader.seq, hv]
        rfl
      refine (hx.run (ht.stands hs)).mono (fun m u h => ?_) fun e u he =>
        Reader.iterate_stop (by rw [hround, Reader.progress, he]; rfl)
      obtain ⟨hu, hv'⟩ := h
      have hbehind := ht.trans hu
      rw [progress_outcome hu hv'] at hround
      by_cases hlength : m.length = 0
      · rw [if_pos hlength] at hround
        rw [if_pos ((ends_iff hu.toPast).2 hlength), Reader.iterate_miss hround]
        exact ⟨by split <;> omega, ⟨0, hbehind.rewound hs⟩, rfl⟩
      · rw [if_neg hlength] at hround
        have hlt : (u.rest text).length < (s.rest text).length :=
          hbehind.length_lt.2 (by omega)
        rw [if_neg (mt (ends_iff hu.toPast).1 hlength), Reader.iterate_hit hround hlt]
        refine (ih (count + 1) u (by omega) (fuel_next hbehind.toPast (by omega) hfuel)
          (hbehind.stands hs)).imp fun c v h => ?_
        obtain ⟨hc, ⟨j, hrest⟩, hv⟩ := h
        exact ⟨hc, ⟨_, hbehind.trans hrest⟩, hv⟩

/-- All rounds of a repetition: the first one missed, or as many as the reader finds. -/
theorem repeatMany_rounds (hb : Spans text depth skips between rb)
    (hx : Denotes text depth skips x rx) (fuel : Nat)
    (hfuel : text.size - s.scanner.offset < fuel) (hs : s.Stands text depth skips) :
    (repeatMany between x fuel 0).Ensures s
      (fun c t => (∃ n, Moved text s n t) ∧ (c = 0 → t.rest text = s.rest text) ∧
        Reader.plus rb rx (s.rest text) s.frame s.world =
          if c = 0 then .miss t.frame t.world else .hit (t.rest text) t.frame t.world)
      fun e t => Reader.plus rb rx (s.rest text) s.frame s.world = .stop e.reason t.world := by
  cases fuel with
  | zero => omega
  | succ fuel =>
      simp only [Step.repeatMany, skipBefore, Nat.lt_irrefl, if_false, ensures_bind, ensures_place,
        ensures_offset, ensures_ite, ensures_rewind, ensures_pure, gt_iff_lt]
      refine (hx.run hs).mono (fun m t h => ?_) fun e t he => by rw [Reader.plus, he]; rfl
      obtain ⟨ht, hv⟩ := h
      rw [Reader.plus, hv]
      by_cases hlength : m.length = 0
      · rw [if_pos ((ends_iff ht.toPast).2 hlength)]
        refine ⟨⟨0, ht.rewound hs⟩, fun _ => rfl, ?_⟩
        cases m with
        | miss => rfl
        | hit n =>
            have hstill : ¬ (t.rest text).length < (s.rest text).length :=
              mt ht.length_lt.1 (Nat.not_lt.2 (Nat.le_of_eq hlength))
            rw [State.outcome_hit, Outcome.andThen_hit, if_neg hstill]
            rfl
      · rw [if_neg (mt (ends_iff ht.toPast).1 hlength)]
        cases m with
        | miss => exact absurd rfl hlength
        | hit n =>
            have hlt : (t.rest text).length < (s.rest text).length :=
              ht.length_lt.2 (Nat.pos_of_ne_zero hlength)
            rw [State.outcome_hit, Outcome.andThen_hit, if_pos hlt]
            refine (repeatMany_iterated hb hx fuel 1 t Nat.one_pos
              (fuel_next ht.toPast (Nat.pos_of_ne_zero hlength) hfuel) (ht.stands hs)).imp
              fun c u h => ?_
            obtain ⟨hc, ⟨j, hrest⟩, hv'⟩ := h
            refine ⟨⟨_, ht.trans hrest⟩, fun hzero => absurd hzero (by omega), ?_⟩
            rw [hv', if_neg (by omega)]

theorem Denotes.plus (hmoving : Moving setting.source.text between)
    (hb : Spans setting.source.text depth skips between rb)
    (hx : Denotes setting.source.text depth skips x rx) :
    Denotes setting.source.text depth skips (repeated setting between x 1) (.plus rb rx) := by
  refine ⟨.repeated hmoving hx.reading 1, fun s hs => ?_⟩
  simp only [Step.repeated, rounds, ensures_bind, ensures_place, ensures_ite, ensures_missAt,
    ensures_matchedSince]
  refine (repeatMany_rounds hb hx _ (Nat.lt_succ_self _) hs).imp fun c t ht => ?_
  obtain ⟨⟨n, hmoved⟩, -, hv⟩ := ht
  rw [hv]
  by_cases hc : c = 0
  · rw [if_pos (by omega), if_pos hc]
    exact ⟨(hmoved.rewound hs).toKept, rfl⟩
  · rw [if_neg (by omega), if_neg hc]
    exact ⟨hmoved.toKept, rfl⟩

theorem Denotes.star (hmoving : Moving setting.source.text between)
    (hb : Spans setting.source.text depth skips between rb)
    (hx : Denotes setting.source.text depth skips x rx) :
    Denotes setting.source.text depth skips (repeated setting between x 0) (.star rb rx) := by
  refine ⟨.repeated hmoving hx.reading 0, fun s hs => ?_⟩
  simp only [Step.repeated, rounds, ensures_bind, ensures_place, ensures_matchedSince,
    Nat.not_lt_zero, if_false, Reader.star, Reader.optional, Reader.choice]
  refine (repeatMany_rounds hb hx _ (Nat.lt_succ_self _) hs).mono (fun c t ht => ?_)
    fun e t he => by rw [he]; rfl
  obtain ⟨⟨n, hmoved⟩, hback, hv⟩ := ht
  refine ⟨hmoved.toKept, ?_⟩
  rw [hv, State.outcome_hit]
  by_cases hc : c = 0
  · rw [if_pos hc, hback hc]
    rfl
  · rw [if_neg hc]
    rfl

/-- A group that hits goes on to the groups behind it if it advanced, and otherwise ends the list. -/
theorem listTail_goesOn {round : Reader V W} {fuel : Nat}
    (hround : round (s.rest text) s.frame s.world = .hit (t.rest text) t.frame t.world)
    (ht : Moved text s n t) (hfuel : text.size - s.scanner.offset < fuel + 1)
    (hs : s.Stands text depth skips)
    (hrest : ∀ t : State V W, text.size - t.scanner.offset < fuel → t.Stands text depth skips →
      (listTail between x y fuel).Ensures t
        (fun _ u => (∃ k, Moved text t k u) ∧
          round.iterate (t.rest text) t.frame t.world = .hit (u.rest text) u.frame u.world)
        fun e u => round.iterate (t.rest text) t.frame t.world = .stop e.reason u.world) :
    if t.scanner.offset = s.scanner.position.offset then
      (∃ k, Moved text s k t) ∧
        round.iterate (s.rest text) s.frame s.world = .hit (t.rest text) t.frame t.world
    else (listTail between x y fuel).Ensures t
      (fun _ u => (∃ k, Moved text s k u) ∧
        round.iterate (s.rest text) s.frame s.world = .hit (u.rest text) u.frame u.world)
      fun e u => round.iterate (s.rest text) s.frame s.world = .stop e.reason u.world := by
  have hoffset := ht.offset
  rw [Scanner.offset_position]
  by_cases hn : n = 0
  · have hstill : t.rest text = s.rest text := by rw [ht.rest, hn, List.drop_zero]
    have hle : (s.rest text).length ≤ (t.rest text).length :=
      Nat.le_of_eq (by rw [hstill])
    rw [if_pos (by omega), Reader.iterate_still hround hle, hstill]
    exact ⟨⟨n, ht⟩, rfl⟩
  · have hlt : (t.rest text).length < (s.rest text).length := ht.length_lt.2 (by omega)
    rw [if_neg (by omega), Reader.iterate_hit hround hlt]
    refine (hrest t (fuel_next ht.toPast (by omega) hfuel) (ht.stands hs)).imp fun _ u h => ?_
    obtain ⟨⟨k, hu⟩, hv⟩ := h
    exact ⟨⟨_, ht.trans hu⟩, hv⟩

theorem listTail_iterated (hb : Spans text depth skips between rb)
    (hx : Denotes text depth skips x rx) (hy : Denotes text depth skips y ry) (fuel : Nat)
    (s : State V W) (hfuel : text.size - s.scanner.offset < fuel)
    (hs : s.Stands text depth skips) :
    (listTail between x y fuel).Ensures s
      (fun _ t => (∃ n, Moved text s n t) ∧
        Reader.iterate (rb.seq (ry.seq (rb.seq rx))) (s.rest text) s.frame s.world =
          .hit (t.rest text) t.frame t.world)
      fun e t => Reader.iterate (rb.seq (ry.seq (rb.seq rx))) (s.rest text) s.frame s.world =
        .stop e.reason t.world := by
  rw [← Reader.seq_assoc]
  induction fuel generalizing s with
  | zero => omega
  | succ fuel ih =>
      simp only [Step.listTail, ensures_bind, ensures_place, ensures_offset, ensures_ite,
        ensures_rewind, ensures_pure]
      refine (hb.followed hy hs).mono
        (fun _ t h => h.mono (fun m u h => ?_) fun e u he =>
          Reader.iterate_stop (by rw [Reader.seq, he]; rfl))
        fun e u he => Reader.iterate_stop (by rw [Reader.seq, he]; rfl)
      obtain ⟨⟨k, hseparator⟩, hv⟩ := h
      cases m with
      | miss =>
          rw [Reader.iterate_miss (by rw [Reader.seq, hv]; rfl)]
          exact ⟨⟨0, hseparator.rewound hs⟩, rfl⟩
      | hit j =>
          have hgroup : (rb.seq ry).seq (rb.seq rx) (s.rest text) s.frame s.world =
              rb.seq rx (u.rest text) u.frame u.world := by
            rw [Reader.seq, hv]
            rfl
          rw [if_pos (Match.isHit_hit j)]
          refine (hb.followed hx (hseparator.stands hs)).mono
            (fun _ v h => h.mono (fun m w h => ?_) fun e w he =>
              Reader.iterate_stop (hgroup.trans he))
            fun e w he => Reader.iterate_stop (hgroup.trans he)
          obtain ⟨⟨k', helement⟩, hv'⟩ := h
          have hbehind := hseparator.trans helement
          rw [hv'] at hgroup
          cases m with
          | miss =>
              rw [Reader.iterate_miss hgroup]
              exact ⟨⟨0, hbehind.rewound hs⟩, rfl⟩
          | hit n =>
              rw [if_pos (Match.isHit_hit n)]
              exact listTail_goesOn hgroup hbehind hfuel hs ih

theorem Denotes.list (hmoving : Moving setting.source.text between)
    (hb : Spans setting.source.text depth skips between rb)
    (hx : Denotes setting.source.text depth skips x rx)
    (hy : Denotes setting.source.text depth skips y ry) :
    Denotes setting.source.text depth skips (list setting between x y) (.list rb rx ry) := by
  refine ⟨.list hmoving hx.reading hy.reading, fun s hs => ?_⟩
  simp only [Step.list, rounds, ensures_bind, ensures_place, ensures_ite, ensures_pure,
    ensures_matchedSince, Reader.list, Reader.seq]
  refine (hx.run hs).mono (fun m t h => ?_) fun e t he => by rw [he]; rfl
  obtain ⟨ht, hv⟩ := h
  rw [hv]
  cases m with
  | miss => exact ⟨ht.toKept, rfl⟩
  | hit n =>
      rw [if_pos (Match.isHit_hit n), State.outcome_hit, Outcome.andThen_hit]
      have hfuel : setting.source.text.size - t.scanner.offset <
          setting.source.text.size - s.scanner.offset + 1 := by
        have hoffset := ht.offset
        omega
      refine (listTail_iterated hb hx hy _ t hfuel (ht.stands hs)).imp fun _ u h => ?_
      obtain ⟨⟨k, hu⟩, hv'⟩ := h
      exact ⟨(ht.trans hu).toKept, hv'⟩

/-! ### Tokens, actions and calls -/

theorem Denotes.inToken (hx : Denotes text depth false x rx) (skips : Bool) :
    Denotes text depth skips (inToken x) rx := by
  refine ⟨hx.reading.inToken, fun s hs => ?_⟩
  rw [Step.inToken, ensures_between]
  have hbegun : State.Stands text depth false { s with scanner := s.scanner.beginToken } :=
    ⟨hs.inBounds, hs.depth, by simp [State.skips, Scanner.beginToken], hs.untraced⟩
  refine (hx.outcome _ hbegun).imp fun m t h => ⟨⟨h.1.untraced, h.1.stack⟩, ?_⟩
  cases m <;> exact h.2

theorem Denotes.action (hx : Denotes setting.source.text depth skips x rx)
    {run : ActionContext V W → ActionContext V W} (hrun : Textual run) :
    Denotes setting.source.text depth skips (action setting run x) (.action run rx) := by
  refine ⟨hx.reading.action run, fun s hs => ?_⟩
  simp only [Step.action, act, ensures_bind, ensures_place, ensures_ite, ensures_pure,
    ensures_modifyGet, Reader.action]
  refine (hx.run hs).mono (fun m t h => ?_) fun e t he => by rw [he]; rfl
  obtain ⟨ht, hv⟩ := h
  rw [hv]
  cases m with
  | miss => exact ⟨ht.toKept, rfl⟩
  | hit n =>
      have htext : (setting.source.textBetween s.scanner.position t.scanner.position).toList =
          consumed (s.rest setting.source.text) (t.rest setting.source.text) := by
        rw [consumed_eq_take ht.toPast]
        exact String.ofList_injective (textBetween_eq_take setting.source ht.toPast)
      rw [if_pos (Match.isHit_hit n), hrun.run_eq, htext, State.outcome_hit, Outcome.andThen_hit]
      generalize run (.of t.frame _ t.world) = done
      cases herror : done.error with
      | some reason => rfl
      | none =>
          simp only [ensures_ite, ensures_pure, ensures_missAt]
          cases hpass : done.pass with
          | true => exact ⟨⟨ht.untraced, ht.stack⟩, rfl⟩
          | false => exact ⟨⟨ht.untraced, ht.stack⟩, rfl⟩

/-- How the meaning of a rule tells that a call has ended in a state. -/
def answer (text : Buffer) (m : Match) (value : Option V) (t : State V W) :
    Outcome (Option V) Unit W :=
  match m with
  | .hit _ => .hit (t.rest text) value t.world
  | .miss => .miss () t.world

/-- The step is a call of a rule and ends as its meaning does. It takes its arguments off the stack,
puts the value there after a hit, if the rule returns one, and keeps the frame of its caller. -/
structure Answers (text : Buffer) (depth : Nat) (skips : Bool) (rule : Rule V W)
    (x : Step V W Match) (call : Callee V W) : Prop where
  reading : Reading text x
  outcome : ∀ (s : State V W) (args below : List V), s.Stands text depth skips →
    args.length = rule.inherited.length → s.stack.values = args.reverse ++ below →
    x.Ensures s
      (fun m t => t.scanner.log = none ∧ t.frame = s.frame ∧ ∃ value : Option V,
        value.isSome = (m.isHit && rule.hasValue) ∧ t.stack.values = value.toList ++ below ∧
        call args (s.rest text) s.world = answer text m value t)
      fun e t => call args (s.rest text) s.world = .stop e.reason t.world

variable {rule : Rule V W} {call : Callee V W}

/-- A call that is made without arguments, and whose value is dropped. -/
theorem Answers.tested (h : Answers text depth skips rule x call) (harity : rule.inherited = [])
    (hs : s.Stands text depth skips) :
    x.Ensures s
      (fun m t => Moved text s m.length { t with stack := t.stack.truncate s.stack.size } ∧
        Reader.test call (s.rest text) s.frame s.world = t.outcome text m)
      fun e t => Reader.test call (s.rest text) s.frame s.world = .stop e.reason t.world := by
  have hcall := h.outcome s [] s.stack.values hs (by rw [harity]; rfl) rfl
  refine ((h.reading s).and hcall).mono (fun m t ht => ?_) fun e t he => ?_
  · obtain ⟨hreads, hlog, hframe, value, -, hstack, hv⟩ := ht
    have hpast := hreads.past hs.inBounds
    have hdropped : t.stack.truncate s.stack.size = s.stack := by
      have hvalues : t.stack = ⟨value.toList ++ s.stack.values⟩ := congrArg ValueStack.mk hstack
      rw [hvalues]
      exact truncate_append value.toList s.stack.values
    refine ⟨⟨⟨hpast.level, hpast.offset, hpast.inBounds⟩, ⟨hlog, hdropped⟩⟩, ?_⟩
    rw [Reader.test, hv]
    cases m <;> simp [answer, hframe]
  · rw [Reader.test, he.2]
    rfl

theorem Foretells.lookAhead (h : Answers text depth skips rule x call)
    (harity : rule.inherited = []) :
    Foretells text depth skips (lookAhead x) (.test call) := by
  refine ⟨.lookAhead h.reading, fun s hs => ?_⟩
  simp only [Step.lookAhead, ensures_bind, ensures_place, ensures_height, ensures_dropAbove,
    ensures_rewind, ensures_pure]
  refine (h.tested harity hs).imp fun m t ht => ?_
  obtain ⟨hmoved, hv⟩ := ht
  refine ⟨hmoved.rewound hs, ?_⟩
  rw [hv]
  cases m with
  | miss => rfl
  | hit n => exact ⟨_, rfl⟩

/-- Skipping is crossing a gap. Nothing is skipped while the skip rule runs, so it is called as in a
token. -/
theorem Spans.skip {call : RuleId → Step V W Match} {mean : Bool → RuleId → Callee V W}
    (hcall : ∀ id, setting.skipRule = some id → ∃ rule, rule.inherited = [] ∧
      Answers setting.source.text depth false rule (call id) (mean false id))
    (skips : Bool) :
    Spans setting.source.text depth skips (skip setting call)
      (.gap setting.skipRule mean skips) := by
  intro s hs
  simp only [Step.skip, ensures_bind, ensures_get, State.activeSkip_eq, hs.skips]
  cases skips with
  | false => exact ⟨⟨0, .refl hs⟩, rfl⟩
  | true =>
      cases hrule : setting.skipRule with
      | none => exact ⟨⟨0, .refl hs⟩, rfl⟩
      | some id =>
          obtain ⟨rule, harity, hanswers⟩ := hcall id hrule
          have hskipping : s.scanner.skipping = false := by
            have hskips := hs.skips
            simp only [State.skips, Bool.and_eq_true, Bool.not_eq_true'] at hskips
            exact hskips.1
          have hbegun : State.Stands setting.source.text depth false
              { s with scanner := s.scanner.beginSkip } :=
            ⟨hs.inBounds, hs.depth, by simp [State.skips, Scanner.beginSkip], hs.untraced⟩
          simp only [inSkip, if_true, ensures_bind, ensures_place, ensures_height,
            ensures_between, ensures_ite, ensures_rewind, ensures_dropAbove, Reader.gap,
            Reader.optional, Reader.choice]
          refine (hanswers.tested harity hbegun).mono (fun m t h => ?_) fun e t he => ?_
          · obtain ⟨hmoved, hv⟩ := h
            have hlevel := State.level_endSkip hskipping hmoved.level
            change Reader.test (mean false id) (s.rest _) s.frame s.world = _ at hv
            rw [hv]
            cases m with
            | hit n =>
                exact ⟨⟨n, ⟨hlevel, hmoved.offset, hmoved.inBounds⟩,
                  ⟨hmoved.untraced, hmoved.stack⟩⟩, rfl⟩
            | miss =>
                exact ⟨⟨0, ⟨hlevel, rfl, hs.inBounds⟩, ⟨hmoved.untraced, hmoved.stack⟩⟩, rfl⟩
          · change Reader.test (mean false id) (s.rest _) s.frame s.world = _ at he
            rw [he]
            rfl

/-- Arguments are computed in the present frame and pushed, the first one first. -/
theorem ensures_pushArguments (rule : Rule V W) (index : Nat) (args : List (Argument V))
    (s : State V W) :
    (pushArguments rule index args).Ensures s
      (fun _ t => ∃ values, args.mapM (· s.frame) = some values ∧
        values.length = args.length ∧ t = s.owning (values.reverse ++ s.stack.values))
      fun e t => args.mapM (· s.frame) = none ∧ e.reason = .faulty ∧ t.world = s.world := by
  induction args generalizing s index with
  | nil => exact ⟨[], rfl, rfl, rfl⟩
  | cons argument rest ih =>
      simp only [Step.pushArguments, ensures_bind, ensures_get, List.mapM_cons]
      cases hv : argument s.frame with
      | none => exact ⟨rfl, rfl, rfl⟩
      | some v =>
          simp only [ensures_bind, ensures_push]
          refine (ih (index + 1) _).mono (fun _ t h => ?_) fun e t h => ?_
          · obtain ⟨values, hvalues, hcount, ht⟩ := h
            change rest.mapM (· s.frame) = some values at hvalues
            refine ⟨v :: values, by rw [hvalues]; rfl, congrArg (· + 1) hcount, ht.trans ?_⟩
            simp [State.owning, ValueStack.push]
          · obtain ⟨hnone, hreason, hworld⟩ := h
            change rest.mapM (· s.frame) = none at hnone
            exact ⟨by rw [hnone]; rfl, hreason, hworld⟩

theorem Denotes.nonterminal (h : Answers text depth skips rule x call) (instanceName : String)
    {args : List (Argument V)} (hlength : rule.inherited.length = args.length) :
    Denotes text depth skips (nonterminal rule instanceName args x)
      (.nonterminal call instanceName args) := by
  refine ⟨h.reading.nonterminal rule instanceName args, fun s hs => ?_⟩
  simp only [Step.nonterminal, ensures_bind, ensures_ite, ensures_modifyFrame, ensures_pure,
    Reader.nonterminal]
  refine (ensures_pushArguments rule 0 args s).mono (fun _ t ht => ?_) fun e t he => ?_
  · obtain ⟨values, hvalues, hcount, rfl⟩ := ht
    have hpushed : (s.owning (values.reverse ++ s.stack.values)).Stands text depth skips :=
      ⟨hs.inBounds, hs.depth, hs.skips, hs.untraced⟩
    rw [hvalues]
    refine (h.outcome _ values s.stack.values hpushed (hcount.trans hlength.symm) rfl).mono (fun m t h => ?_)
      fun e t he => ?_
    · obtain ⟨hlog, hframe, value, hvalue, hstack, hv⟩ := h
      change call values (s.rest text) s.world = answer text m value t at hv
      change t.frame = s.frame at hframe
      dsimp only
      rw [hv, ← hvalue]
      cases value with
      | none =>
          rw [if_neg (by simp)]
          refine ⟨⟨hlog, congrArg ValueStack.mk hstack⟩, ?_⟩
          cases m <;> simp [answer, hframe]
      | some v =>
          rw [if_pos Option.isSome_some]
          refine ensures_pop rule (fun v' rest hpop => ?_) fun hempty => ?_
          · obtain ⟨rfl, rfl⟩ : v' = v ∧ rest = s.stack.values := by
              rw [hstack] at hpop
              simpa using hpop.symm
            refine ⟨⟨hlog, rfl⟩, ?_⟩
            cases m with
            | miss => cases hvalue
            | hit n =>
                simp only [answer, Outcome.map_hit, Option.elim_some, State.outcome_hit, hframe]
                rfl
          · rw [hstack] at hempty
            cases hempty
    · change call values (s.rest text) s.world = .stop e.reason t.world at he
      dsimp only
      rw [he]
      rfl
  · obtain ⟨hnone, hreason, hworld⟩ := he
    rw [hnone, hreason, hworld]

/-! ### Activations -/

section

variable (setting : Setting V W) (rule : Rule V W) (start : Position)
  {good : Unit → State V W → Prop} {bad : Failure → State V W → Prop}

/-- Opening an activation where nothing is traced: it is counted, unless there are too many. -/
theorem ensures_enter_untraced (hs : s.scanner.log = none)
    (hlimit : ¬ (setting.maxDepth = 0 ∨ s.depth < setting.maxDepth) → ∀ location,
      bad (.error (.recursionLimitExceeded rule.fullName setting.maxDepth location)) s)
    (hgood : setting.maxDepth = 0 ∨ s.depth < setting.maxDepth → ∀ notices,
      good () { s with depth := s.depth + 1, notices := notices }) :
    (enter setting rule).Ensures s good bad := by
  have hroom : (setting.maxDepth > 0 && setting.maxDepth ≤ s.depth) = true ↔
      ¬ (setting.maxDepth = 0 ∨ s.depth < setting.maxDepth) := by
    simp only [Bool.and_eq_true, decide_eq_true_eq]
    omega
  simp only [enter, ensures_bind, ensures_modify, ensures_get, ensures_ite, ensures_fail,
    ensures_pure, ensures_place, ensures_note]
  split
  · next h => exact hlimit (hroom.1 h) _
  · next h =>
    have hgo := hgood (Decidable.not_not.1 (mt hroom.2 h))
    split
    · exact hgo s.notices
    · exact (trace_untraced _ (by exact hs)).2 ((trace_untraced _ (by exact hs)).2 (hgo _))

/-- Closing an activation where nothing is traced. -/
theorem ensures_leave_untraced (m : Match) (hs : s.scanner.log = none)
    (hgood : ∀ notices, good () { s with depth := s.depth - 1, notices := notices }) :
    (leave setting rule start m).Ensures s good bad := by
  simp only [leave, ensures_bind, ensures_modify, ensures_get, ensures_ite, ensures_pure,
    ensures_place, ensures_note]
  split
  · exact hgood s.notices
  · split <;>
      exact (trace_untraced _ (by exact hs)).2 ((trace_untraced _ (by exact hs)).2 (hgood _))

end

/-- The tree of a rule runs in a frame of its own. -/
theorem Denotes.evaluate (hx : Denotes text depth skips x rx) (rule : Rule V W)
    {args below : List V} (hs : s.Stands text depth skips)
    (hlength : args.length = rule.inherited.length)
    (hstack : s.stack.values = args.reverse ++ below) :
    (evaluate rule s.scanner.position x).Ensures s
      (fun m t => t.scanner.log = none ∧ t.frame = s.frame ∧ ∃ value : Option V,
        value.isSome = (m.isHit && rule.hasValue) ∧ t.stack.values = value.toList ++ below ∧
        activation rule.locals rule.inherited rule.hasValue rx args (s.rest text) s.world =
          answer text m value t)
      fun e t => activation rule.locals rule.inherited rule.hasValue rx args (s.rest text) s.world =
        .stop e.reason t.world := by
  have hpop : popArguments rule rule.inherited.length [] { s with frame := .ofLocals rule.locals } =
      .ok args { s with frame := .ofLocals rule.locals, stack := ⟨below⟩ } := by
    have h := popArguments_apply rule [] (s := { s with frame := .ofLocals rule.locals }) hstack
    rwa [List.length_reverse, hlength, List.reverse_reverse, List.append_nil] at h
  have hbound : (s.bound rule args below).Stands text depth skips :=
    ⟨hs.inBounds, hs.depth, hs.skips, hs.untraced⟩
  have hactivation : activation rule.locals rule.inherited rule.hasValue rx args (s.rest text)
      s.world = activation rule.locals rule.inherited rule.hasValue
        (fun _ _ _ => rx ((s.bound rule args below).rest text) (s.bound rule args below).frame
          (s.bound rule args below).world) args (s.rest text) s.world := rfl
  simp only [Step.evaluate, ensures_inFrame, ensures_bind, ensures_iff_of_ok hpop,
    ensures_modifyFrame, ensures_ite, ensures_get, ensures_missAt, ensures_matchedSince]
  rw [hactivation]
  refine (hx.outcome _ hbound).mono (fun m t h => ?_) fun e t he => by rw [he]; rfl
  obtain ⟨ht, hv⟩ := h
  have hvalues : t.stack.values = below := congrArg ValueStack.values ht.stack
  rw [hv]
  cases m with
  | miss =>
      rw [if_neg (by simp)]
      exact ⟨ht.untraced, trivial, none, rfl, hvalues, rfl⟩
  | hit n =>
      rw [if_pos (Match.isHit_hit n)]
      cases hvalue : rule.hasValue with
      | false =>
          rw [if_neg (by simp)]
          exact ⟨ht.untraced, trivial, none, rfl, hvalues, rfl⟩
      | true =>
          simp only [Frame.takeValue, if_true]
          cases hv' : t.frame.value with
          | none =>
              show _ = Outcome.stop _ t.world
              simp [activation, hv']
              rfl
          | some v =>
              refine ⟨ht.untraced, trivial, some v, rfl, ?_, by simp [activation, hv', answer]; rfl⟩
              show v :: t.stack.values = _
              rw [hvalues]
              rfl

theorem Answers.activate (hx : Denotes setting.source.text (depth + 1) skips x rx)
    (hroom : setting.maxDepth = 0 ∨ depth < setting.maxDepth) (rule : Rule V W) :
    Answers setting.source.text depth skips rule (Step.activate setting rule x)
      (activation rule.locals rule.inherited rule.hasValue rx) := by
  refine ⟨hx.reading.activate setting rule, fun s args below hs hlength hstack => ?_⟩
  simp only [Step.activate, ensures_bind, ensures_place]
  refine ensures_enter_untraced setting rule hs.untraced
    (fun hfull => absurd (by rwa [hs.depth]) hfull) fun _ notices => ?_
  have hopened : State.Stands setting.source.text (depth + 1) skips
      { s with depth := s.depth + 1, notices := notices } :=
    ⟨hs.inBounds, congrArg (· + 1) hs.depth, hs.skips, hs.untraced⟩
  apply ensures_closing setting rule
  refine (hx.evaluate rule hopened hlength hstack).mono (fun m t h => ?_) fun e t he => ?_
  · refine ensures_leave_untraced setting rule _ m h.1 fun _ => ?_
    obtain ⟨hlog, hframe, value, hvalue, hstack', hv⟩ := h
    exact ⟨hlog, hframe, value, hvalue, hstack', by cases m <;> exact hv⟩
  · exact ensures_leave setting rule _ _ (fun _ _ => he) fun _ _ => he

/-- Where too many activations are open, a rule is not tried. -/
theorem Answers.refused (hreading : Reading setting.source.text x)
    (hfull : ¬ (setting.maxDepth = 0 ∨ depth < setting.maxDepth)) (rule : Rule V W) :
    Answers setting.source.text depth skips rule (Step.activate setting rule x)
      fun _ _ u => .stop .tooDeep u := by
  refine ⟨hreading.activate setting rule, fun s args below hs hlength hstack => ?_⟩
  simp only [Step.activate, ensures_bind, ensures_place]
  refine ensures_enter_untraced setting rule hs.untraced (fun _ _ => rfl) fun hroom => ?_
  rw [hs.depth] at hroom
  exact absurd hroom hfull

end Step

/-! ### Trees and rules -/

/-- How many levels of nesting are left, with some fuel and so many activations open. -/
def Setting.levels (setting : Setting V W) (fuel depth : Nat) : Nat :=
  if setting.maxDepth = 0 then fuel else min fuel (setting.maxDepth - depth)

/-- A setting that readers can stand for: every reference leads into the rule table, the skip rule
inherits nothing, and actions have regard to nothing but their frame, their text and the world. -/
structure Setting.Readable (setting : Setting V W) : Prop where
  linked : LinkedTable setting.rules
  skipRule : ∀ id, setting.skipRule = some id → arity? setting.rules id = some 0
  textual : ∀ (i : Nat) (rule : Rule V W), setting.rules[i]? = some rule →
    rule.definition.Every (fun _ _ => True) fun a => Textual a.run

section

variable {setting : Setting V W} {call : RuleId → Step V W Match}
  {mean : Bool → RuleId → Callee V W} {depth : Nat}

/-- A reference that passes no arguments leads to a rule that inherits nothing. -/
theorem exists_plain_answer (hcall : ∀ skips id rule, setting.rules[id.index]? = some rule →
      Step.Answers setting.source.text depth skips rule (call id) (mean skips id)) {id : RuleId}
    (h : arity? setting.rules id = some 0) (skips : Bool) : ∃ rule : Rule V W,
      rule.inherited = [] ∧
        Step.Answers setting.source.text depth skips rule (call id) (mean skips id) := by
  obtain ⟨rule, hrule, harity⟩ := arity?_eq_some.1 h
  exact ⟨rule, List.eq_nil_of_length_eq_zero harity, hcall skips id rule hrule⟩

/-- Where rules answer, the skip between two steps is a gap between two readers. -/
theorem Setting.Readable.spans_gap (hreadable : setting.Readable)
    (hcall : ∀ skips id rule, setting.rules[id.index]? = some rule →
      Step.Answers setting.source.text depth skips rule (call id) (mean skips id)) (skips : Bool) :
    Step.Spans setting.source.text depth skips (.skip setting call)
      (.gap setting.skipRule mean skips) :=
  .skip (fun id hid => exists_plain_answer hcall (hreadable.skipRule id hid) false) skips

end

theorem evalParser_denotes {setting : Setting V W} (hreadable : setting.Readable) {depth : Nat}
    {call : RuleId → Step V W Match} {mean : Bool → RuleId → Callee V W}
    (hreading : ∀ id, Step.Reading setting.source.text (call id))
    (hcall : ∀ skips id rule, setting.rules[id.index]? = some rule →
      Step.Answers setting.source.text depth skips rule (call id) (mean skips id))
    {p : LinkedParser V W} (hlinked : p.LinkedIn setting.rules)
    (htextual : p.Every (fun _ _ => True) fun a => Textual a.run) (skips : Bool) :
    Step.Denotes setting.source.text depth skips (evalParser setting call p)
      (p.reader (.gap setting.skipRule mean) (fun skips target => mean skips target.id) Action.run
        skips) := by
  have hmoving := Step.Moving.skip setting hreading
  have hgap := hreadable.spans_gap hcall
  induction p generalizing skips with
  | empty => exact ⟨fun s => ⟨rfl, rfl, id, fun _ => rfl⟩, fun _ hs => ⟨hs.kept, rfl⟩⟩
  | anyChar => exact .scanOne depth skips setting _
  | atEnd => exact .atEnd depth skips setting
  | char c => exact .scanOne depth skips setting _
  | literal word => exact .literal depth skips setting _
  | oneOf cls => exact .scanOne depth skips setting _
  | set chars => exact .scanOne depth skips setting _
  | range first last => exact .scanOne depth skips setting _
  | keyword word continuation =>
      cases continuation with
      | none => exact .keyword (.seesIdCont depth skips setting) _
      | some rule =>
          obtain ⟨target, hinherited, hanswers⟩ := exists_plain_answer hcall hlinked skips
          exact .keyword (.lookAhead hanswers hinherited) _
  | keywordList selector words ih => exact (ih hlinked htextual skips).keywordList words
  | sequence l r ihl ihr =>
      exact .sequence hmoving (hgap skips) (ihl hlinked.1 htextual.1 skips)
        (ihr hlinked.2 htextual.2 skips)
  | alternative l r ihl ihr =>
      exact (ihl hlinked.1 htextual.1 skips).alternative (ihr hlinked.2 htextual.2 skips)
  | optional body ih => exact (ih hlinked htextual skips).optional
  | star body ih => exact .star hmoving (hgap skips) (ih hlinked htextual skips)
  | plus body ih => exact .plus hmoving (hgap skips) (ih hlinked htextual skips)
  | difference l r ihl ihr =>
      exact (ihl hlinked.1 htextual.1 skips).difference (ihr hlinked.2 htextual.2 skips)
  | exclusiveOr l r ihl ihr =>
      exact (ihl hlinked.1 htextual.1 skips).exclusiveOr (ihr hlinked.2 htextual.2 skips)
  | intersection l r ihl ihr =>
      exact (ihl hlinked.1 htextual.1 skips).intersection (ihr hlinked.2 htextual.2 skips)
  | list element separator ihe ihs =>
      exact .list hmoving (hgap skips) (ihe hlinked.1 htextual.1 skips)
        (ihs hlinked.2 htextual.2 skips)
  | grouping body ih => exact ih hlinked htextual skips
  | token body ih => exact (ih hlinked htextual false).inToken skips
  | expectation body ih => exact (ih hlinked htextual skips).expectation _
  | action action body ih => exact (ih hlinked.2 htextual.2 skips).action htextual.1
  | nonterminal rule instanceName args =>
      obtain ⟨target, htarget, hlength⟩ := arity?_eq_some.1 hlinked
      rw [evalParser, htarget]
      exact .nonterminal (hcall skips rule.id target htarget) instanceName hlength

/-- A rule of a table answers as the table's reader says, with the levels that are left. -/
theorem evalRule_answers {setting : Setting V W} (hreadable : setting.Readable) (fuel depth : Nat)
    (skips : Bool) (id : RuleId) (rule : Rule V W) (hrule : setting.rules[id.index]? = some rule) :
    Step.Answers setting.source.text depth skips rule (evalRule setting fuel id)
      (ruleReader setting.rules setting.skipRule (setting.levels fuel depth) skips id) := by
  induction fuel generalizing depth skips id rule with
  | zero =>
      have hlevels : setting.levels 0 depth = 0 := by simp [Setting.levels]
      rw [hlevels]
      exact ⟨evalRule_reading setting 0 id, fun _ _ _ _ _ _ => rfl⟩
  | succ fuel ih =>
      rw [evalRule, hrule]
      by_cases hroom : setting.maxDepth = 0 ∨ depth < setting.maxDepth
      · have hlevels : setting.levels (fuel + 1) depth = setting.levels fuel (depth + 1) + 1 := by
          unfold Setting.levels
          split <;> omega
        rw [hlevels, ruleReader, hrule]
        exact .activate (evalParser_denotes hreadable (evalRule_reading setting fuel)
          (fun skips id rule hrule => ih (depth + 1) skips id rule hrule)
          (hreadable.linked _ rule hrule) (hreadable.textual _ rule hrule) skips) hroom rule
      · have hlevels : setting.levels (fuel + 1) depth = 0 := by
          unfold Setting.levels
          split <;> omega
        rw [hlevels]
        exact .refused (evalParser_reading setting (evalRule_reading setting fuel) _) hroom rule

end AttrGrammar.Parse

import AttrGrammar.Proofs.Linking
import AttrGrammar.Proofs.Reading
import AttrGrammar.Proofs.Recognizer

/-! Evaluation finds what the pure meaning says. The tree and the rules have no values, attributes or
actions here. A step stands for a recognizer if from each place it answers what the recognizer
answers on the text from there on; places to go back to, levels and the farthest mark leave no trace
in the answer. Each combinator of steps stands for the recognizer of the same name when its parts
do, and the loops of the evaluator, which count their rounds, agree with the recursion on the text
that is left. -/

namespace AttrGrammar.Parse
open Text Scan Peg

variable {V W : Type}

/-- The text that lies ahead. -/
def State.rest (text : Buffer) (s : State V W) : List Char := text.toList.drop s.scanner.offset

theorem State.length_rest (text : Buffer) (s : State V W) :
    (s.rest text).length = text.size - s.scanner.offset := by
  rw [State.rest, List.length_drop, Array.length_toList]

/-- Whether the skip rule may run: it is not running, and no token group is open. -/
def State.skips (s : State V W) : Bool := !s.scanner.skipping && s.scanner.tokenDepth == 0

theorem State.activeSkip_eq {α : Type} (s : State V W) (skipRule : Option α) :
    s.scanner.activeSkip skipRule = if s.skips then skipRule else none := by
  unfold Scanner.activeSkip Scanner.inToken State.skips
  cases s.scanner.skipping <;> cases s.scanner.tokenDepth <;> rfl

def Match.verdict : Match → Verdict
  | miss => .miss
  | hit n => .hit n

@[simp]
theorem Match.verdict_miss : miss.verdict = .miss := rfl

@[simp]
theorem Match.verdict_hit (n : Nat) : (hit n).verdict = .hit n := rfl

/-- Whether breaking off this way is what a verdict says. An expectation that fails is the fatal
verdict, and to run out of fuel is to know no answer. A parse cut off by the nesting limit or by its
trace tells nothing about the verdict, and to end in any other way fits none. -/
def Failure.Fits : Failure → Verdict → Prop
  | .error (.expectation expected _), v => v = .fatal expected
  | .error (.recursionLimitExceeded ..), _ => True
  | .error .log, _ => True
  | .error _, _ => False
  | .outOfFuel, v => v = .unknown

namespace Failure.Fits

variable {e : Failure} {v : Verdict}

/-- What breaks off a part breaks off the whole: no verdict that takes the part for a match or a miss
changes one that it cannot fit. -/
theorem congr {v' : Verdict} (h : e.Fits v) (hfatal : ∀ expected, v = .fatal expected → v' = v)
    (hunknown : v = .unknown → v' = v) : e.Fits v' := by
  cases e with
  | outOfFuel => exact (hunknown h).trans h
  | error e =>
      cases e with
      | expectation expected location => exact (hfatal expected h).trans h
      | recursionLimitExceeded => trivial
      | log => trivial
      | _ => exact h

theorem andThen (h : e.Fits v) (next : Nat → Verdict) : e.Fits (v.andThen next) :=
  h.congr (by rintro _ rfl; rfl) (by rintro rfl; rfl)

theorem after (h : e.Fits v) (n : Nat) : e.Fits (v.after n) :=
  h.congr (by rintro _ rfl; rfl) (by rintro rfl; rfl)

theorem negate (h : e.Fits v) (n : Nat) : e.Fits (v.negate n) :=
  h.congr (by rintro _ rfl; rfl) (by rintro rfl; rfl)

theorem orElse (h : e.Fits v) (other : Verdict) : e.Fits (v.orElse other) :=
  h.congr (by rintro _ rfl; rfl) (by rintro rfl; rfl)

theorem progress {r : Recognizer} {w : List Char} (h : e.Fits (r w)) :
    e.Fits (Recognizer.progress r w) :=
  h.congr (by intro _ hr; rw [Recognizer.progress, hr])
    (by intro hr; rw [Recognizer.progress, hr])

theorem iterate {r : Recognizer} {w : List Char} (h : e.Fits (r w)) :
    e.Fits (Recognizer.iterate r w) :=
  h.congr (by intro _ hr; rw [Recognizer.iterate.eq_def, hr])
    (by intro hr; rw [Recognizer.iterate.eq_def, hr])

end Failure.Fits

variable {text : Buffer} {s t u : State V W} {m : Match} {n k : Nat}

/-- The state `t` stands `n` characters behind the place of `s`, within the text and at the same
level. -/
structure Past (text : Buffer) (s : State V W) (n : Nat) (t : State V W) : Prop where
  level : t.level = s.level
  offset : t.scanner.offset = s.scanner.offset + n
  inBounds : t.scanner.offset ≤ text.size

namespace Past

theorem refl (hs : s.scanner.offset ≤ text.size) : Past text s 0 s := ⟨rfl, rfl, hs⟩

theorem trans (h : Past text s n t) (h' : Past text t k u) : Past text s (n + k) u := by
  refine ⟨h'.level.trans h.level, ?_, h'.inBounds⟩
  calc
    u.scanner.offset = t.scanner.offset + k := h'.offset
    _ = s.scanner.offset + n + k := by rw [h.offset]
    _ = s.scanner.offset + (n + k) := Nat.add_assoc _ _ _

theorem rest (h : Past text s n t) : t.rest text = (s.rest text).drop n := by
  rw [State.rest, State.rest, h.offset, List.drop_drop]

theorem skips (h : Past text s n t) : t.skips = s.skips := by
  obtain ⟨-, htoken, hskipping⟩ := State.level_eq_iff.1 h.level
  rw [State.skips, State.skips, hskipping, htoken]

theorem length_le (h : Past text s n t) : n ≤ (s.rest text).length := by
  have hle := h.inBounds
  rw [h.offset] at hle
  rw [State.length_rest]
  omega

theorem matched (h : Past text s n t) :
    Match.hit (t.scanner.offset - s.scanner.position.offset) = .hit n := by
  rw [h.offset, Scanner.offset_position, Nat.add_sub_cancel_left]

theorem rewound (hs : s.scanner.offset ≤ text.size) (h : t.level = s.level) :
    Past text s 0 { t with scanner := t.scanner.mapCursor (·.restore s.scanner.position) } :=
  ⟨h, rfl, hs⟩

end Past

theorem Reads.past (h : Reads text s m t) (hs : s.scanner.offset ≤ text.size) :
    Past text s m.length t :=
  ⟨h.level, h.offset, h.inBounds hs⟩

namespace Step

/-- The step reads what its match tells, and its match is the verdict of the recognizer on the text
ahead; `skips` tells whether the skip rule may run. -/
structure Recognizes (text : Buffer) (skips : Bool) (x : Step V W Match) (r : Recognizer) :
    Prop where
  reading : Reading text x
  verdict : ∀ s : State V W, s.scanner.offset ≤ text.size → s.skips = skips →
    x.Ensures s (fun m _ => r (s.rest text) = m.verdict) fun e _ => e.Fits (r (s.rest text))

/-- The same for a step between two others, which matches if only nothing. -/
def Bridges (text : Buffer) (skips : Bool) (x : Step V W Unit) (r : Recognizer) : Prop :=
  ∀ s : State V W, s.scanner.offset ≤ text.size → s.skips = skips →
    x.Ensures s (fun _ t => ∃ n, r (s.rest text) = .hit n ∧ Past text s n t)
      fun e _ => e.Fits (r (s.rest text))

variable {skips : Bool} {x y : Step V W Match} {rx ry : Recognizer} {between : Step V W Unit}
  {rb : Recognizer}

/-- The run of a step that recognizes: a miss at the very place, or a hit and its length. -/
theorem Recognizes.run (h : Recognizes text skips x rx) (hs : s.scanner.offset ≤ text.size)
    (hskips : s.skips = skips) :
    x.Ensures s (fun m t => Past text s m.length t ∧ rx (s.rest text) = m.verdict)
      fun e _ => e.Fits (rx (s.rest text)) :=
  ((h.reading s).and (h.verdict s hs hskips)).mono (fun _ _ h => ⟨h.1.past hs, h.2⟩)
    fun _ _ h => h.2

/-- A second attempt at the place of `s`, from a state that stands there again. -/
theorem Recognizes.retry (h : Recognizes text skips x rx) (hpast : Past text s 0 t)
    (hskips : s.skips = skips) :
    x.Ensures t (fun m u => Past text s m.length u ∧ rx (s.rest text) = m.verdict)
      fun e _ => e.Fits (rx (s.rest text)) := by
  have hrest : t.rest text = s.rest text := by rw [hpast.rest, List.drop_zero]
  rw [← hrest]
  refine (h.run hpast.inBounds (hpast.skips.trans hskips)).imp fun m u hu => ⟨?_, hu.2⟩
  have hsum := hpast.trans hu.1
  rwa [Nat.zero_add] at hsum

/-! ### Characters and words -/

variable {setting : Setting V W}

theorem rest_eq_cons {c : Char} (h : text[s.scanner.offset]? = some c) :
    s.rest text = c :: text.toList.drop (s.scanner.offset + 1) := by
  obtain ⟨hlt, rfl⟩ := Array.getElem?_eq_some_iff.1 h
  rw [State.rest, List.drop_eq_getElem_cons (by simpa using hlt), Array.getElem_toList]

theorem rest_eq_nil (h : text[s.scanner.offset]? = none) : s.rest text = [] :=
  List.drop_eq_nil_of_le (by simpa using h)

theorem Recognizes.scanOne (skips : Bool) (setting : Setting V W) (accept : Char → Bool) :
    Recognizes setting.source.text skips (scanOne setting accept) (.oneChar accept) := by
  refine ⟨.scanOne setting accept, fun s hs _ => ?_⟩
  simp only [Step.scanOne, ensures_bind, ensures_get]
  split
  · next c hc =>
    simp only [ensures_ite, ensures_bind, ensures_scan, ensures_pure]
    rw [rest_eq_cons hc, Recognizer.oneChar]
    split
    · rfl
    · rfl
  · next hnone =>
    rw [ensures_pure, rest_eq_nil hnone]
    rfl

theorem Recognizes.atEnd (skips : Bool) (setting : Setting V W) :
    Recognizes setting.source.text skips (atEnd setting) .atEnd := by
  refine ⟨.atEnd setting, fun s hs _ => ?_⟩
  simp only [Step.atEnd, ensures_bind, ensures_get, ensures_pure, Cursor.atEnd, decide_eq_true_eq]
  split
  · next h =>
    rw [rest_eq_nil (Array.getElem?_eq_none h)]
    rfl
  · next h =>
    rw [rest_eq_cons (Array.getElem?_eq_getElem (Nat.lt_of_not_le h))]
    rfl

theorem startsWith_iff (word : List Char) :
    s.scanner.cursor.startsWith text word ↔ word <+: s.rest text :=
  standsAt_iff text s.scanner.offset word

theorem Recognizes.literal (skips : Bool) (setting : Setting V W) (word : List Char) :
    Recognizes setting.source.text skips (literal setting word) (.literal word) := by
  refine ⟨.literal setting word, fun s hs _ => ?_⟩
  simp only [Step.literal, seesWord, ensures_bind, ensures_get, ensures_pure, ensures_ite,
    ensures_scan, startsWith_iff, Recognizer.literal]
  split <;> rfl

/-- A test that stays where it is tells whether a recognizer hits. -/
def Foresees (text : Buffer) (skips : Bool) (x : Step V W Bool) (r : Recognizer) : Prop :=
  Staying x ∧ ∀ s : State V W, s.scanner.offset ≤ text.size → s.skips = skips →
    x.Ensures s (fun b _ => ∀ n, (r (s.rest text)).negate n = if b then .miss else .hit n)
      fun e _ => e.Fits (r (s.rest text))

theorem Foresees.seesIdCont (skips : Bool) (setting : Setting V W) :
    Foresees setting.source.text skips (seesIdCont setting) (.oneChar isIdCont) := by
  refine ⟨.seesIdCont setting, fun s hs _ n => ?_⟩
  cases hc : setting.source.text[s.scanner.offset]? with
  | none =>
      rw [rest_eq_nil hc, show s.scanner.cursor.peek? setting.source.text = none from hc]
      rfl
  | some c =>
      rw [rest_eq_cons hc, show s.scanner.cursor.peek? setting.source.text = some c from hc,
        Recognizer.oneChar, Option.any_some]
      split <;> rfl

theorem Foresees.lookAhead (hx : Recognizes text skips x rx) :
    Foresees text skips (lookAhead x) rx := by
  refine ⟨.lookAhead hx.reading, fun s hs hskips => ?_⟩
  simp only [Step.lookAhead, ensures_bind, ensures_place, ensures_height, ensures_dropAbove,
    ensures_rewind, ensures_pure]
  refine (hx.run hs hskips).imp fun m t ht n => ?_
  rw [ht.2]
  cases m <;> rfl

theorem Recognizes.keyword {goesOn : Step V W Bool}
    (hgoesOn : Foresees setting.source.text skips goesOn rx) (word : List Char) :
    Recognizes setting.source.text skips (keyword setting word goesOn) (.keyword word rx) := by
  refine ⟨.keyword hgoesOn.1 word, fun s hs hskips => ?_⟩
  simp only [Step.keyword, seesWord, ensures_bind, ensures_get, ensures_pure, ensures_ite,
    ensures_place, ensures_scan, ensures_missAt]
  split
  · next h =>
    have hpast := (reads_word h).past hs
    have hkeyword : Recognizer.keyword word rx (s.rest setting.source.text) =
        (rx ((s.rest setting.source.text).drop word.length)).negate word.length := by
      rw [Recognizer.keyword, Recognizer.literal, if_pos ((startsWith_iff word).1 h)]
      rfl
    rw [hkeyword]
    have hrun := hgoesOn.2 _ hpast.inBounds (hpast.skips.trans hskips)
    rw [hpast.rest] at hrun
    refine hrun.mono (fun goes t ht => ?_) fun e _ he => he.negate _
    cases goes with
    | true => exact ht word.length
    | false => exact ht word.length
  · next h =>
    rw [Recognizer.keyword, Recognizer.literal, if_neg fun hword => h ((startsWith_iff word).2 hword)]
    rfl

theorem textBetween_eq_take (source : Source) (h : Past source.text s n t) :
    toString (source.textBetween s.scanner.position t.scanner.position) =
      String.ofList ((s.rest source.text).take n) := by
  have hroom : s.scanner.offset + n ≤ source.text.size := by
    rw [← h.offset]
    exact h.inBounds
  calc
    toString (source.textBetween s.scanner.position t.scanner.position) =
        toString (source.text.slice s.scanner.offset (s.scanner.offset + n)) := by
      rw [← h.offset]
      rfl
    _ = String.ofList ((s.rest source.text).take n) :=
      congrArg String.ofList (Slice.toList_slice hroom)

theorem Recognizes.keywordList (hx : Recognizes setting.source.text skips x rx)
    (words : List String) :
    Recognizes setting.source.text skips (keywordList setting x words)
      (.keywordList rx words) := by
  refine ⟨hx.reading.keywordList words, fun s hs hskips => ?_⟩
  simp only [Step.keywordList, ensures_bind, ensures_place, ensures_ite, ensures_pure,
    ensures_missAt, Recognizer.keywordList]
  refine (hx.run hs hskips).mono (fun m t h => ?_) fun e _ he => he.andThen _
  obtain ⟨hpast, hv⟩ := h
  rw [hv]
  cases m with
  | miss => rfl
  | hit n =>
      rw [textBetween_eq_take setting.source hpast]
      simp only [Match.isHit_hit, Match.length_hit, Match.verdict_hit, Verdict.andThen_hit, if_true]
      split <;> rfl

/-! ### Sequences and alternatives -/

/-- What a step matches behind a bridge, told from the place where the bridge begins. -/
theorem Bridges.followed (hb : Bridges text skips between rb) (hx : Recognizes text skips x rx)
    (hs : s.scanner.offset ≤ text.size) (hskips : s.skips = skips) :
    between.Ensures s
      (fun _ t => x.Ensures t
        (fun m u => ∃ k, rb.seq rx (s.rest text) = m.verdict.after k ∧
          Past text s (k + m.length) u)
        fun e _ => e.Fits (rb.seq rx (s.rest text)))
      fun e _ => e.Fits (rb.seq rx (s.rest text)) := by
  refine (hb s hs hskips).mono (fun _ t h => ?_) fun e _ he => he.andThen _
  obtain ⟨k, hk, hgap⟩ := h
  have hseq : rb.seq rx (s.rest text) = (rx (t.rest text)).after k := by
    rw [Recognizer.seq, hk, Verdict.andThen_hit, hgap.rest]
  rw [hseq]
  refine (hx.run hgap.inBounds (hgap.skips.trans hskips)).mono (fun m u h => ?_)
    fun e _ he => he.after k
  obtain ⟨hpast, hv⟩ := h
  exact ⟨k, by rw [hv], hgap.trans hpast⟩

theorem Recognizes.sequence (hmoving : Moving text between) (hb : Bridges text skips between rb)
    (hx : Recognizes text skips x rx) (hy : Recognizes text skips y ry) :
    Recognizes text skips (sequence between x y) (rx.seq (rb.seq ry)) := by
  refine ⟨.sequence hmoving hx.reading hy.reading, fun s hs hskips => ?_⟩
  simp only [Step.sequence, ensures_bind, ensures_place, ensures_ite, ensures_matchedSince,
    ensures_missAt]
  rw [Recognizer.seq]
  refine (hx.run hs hskips).mono (fun m t h => ?_) fun e _ he => he.andThen _
  obtain ⟨hpast, hv⟩ := h
  rw [hv]
  cases m with
  | miss => rfl
  | hit n =>
      rw [Match.length_hit] at hpast
      rw [if_pos (Match.isHit_hit n), Match.verdict_hit, Verdict.andThen_hit, ← hpast.rest]
      refine (hb.followed hy hpast.inBounds (hpast.skips.trans hskips)).mono
        (fun _ u h => h.mono (fun m' v h => ?_) fun e _ he => he.after n)
        fun e _ he => he.after n
      obtain ⟨k, hk, hbehind⟩ := h
      rw [hk]
      cases m' with
      | miss => rfl
      | hit j =>
          rw [if_pos (Match.isHit_hit j), (hpast.trans hbehind).matched]
          rfl

theorem Recognizes.alternative (hx : Recognizes text skips x rx)
    (hy : Recognizes text skips y ry) :
    Recognizes text skips (alternative x y) (.choice rx ry) := by
  refine ⟨.alternative hx.reading hy.reading, fun s hs hskips => ?_⟩
  simp only [Step.alternative, ensures_bind, ensures_place, ensures_ite, ensures_pure,
    ensures_rewind, ensures_missAt, Recognizer.choice]
  refine (hx.run hs hskips).mono (fun m t h => ?_) fun e _ he => he.orElse _
  obtain ⟨hpast, hv⟩ := h
  rw [hv]
  cases m with
  | hit n => rfl
  | miss =>
      refine (hy.retry (.rewound hs hpast.level) hskips).imp fun m' u h => ?_
      obtain ⟨-, hv'⟩ := h
      rw [hv']
      cases m' <;> rfl

theorem Recognizes.optional (hx : Recognizes text skips x rx) :
    Recognizes text skips (optional x) (.optional rx) := by
  refine ⟨hx.reading.optional, fun s hs hskips => ?_⟩
  simp only [Step.optional, ensures_bind, ensures_place, ensures_ite, ensures_pure, ensures_rewind,
    Recognizer.optional, Recognizer.choice]
  refine (hx.run hs hskips).mono (fun m t h => ?_) fun e _ he => he.orElse _
  obtain ⟨-, hv⟩ := h
  rw [hv]
  cases m <;> rfl

theorem Recognizes.expectation (hx : Recognizes text skips x rx) (expected : String) :
    Recognizes text skips (orElse x fun start => failExpectingHere setting expected start)
      (.expect expected rx) := by
  refine ⟨hx.reading.expectation expected, fun s hs hskips => ?_⟩
  simp only [orElse, failExpectingHere, failExpecting, ensures_bind, ensures_place, ensures_ite,
    ensures_pure, ensures_fail, Recognizer.expect, Recognizer.choice]
  refine (hx.run hs hskips).mono (fun m t h => ?_) fun e _ he => he.orElse _
  obtain ⟨-, hv⟩ := h
  rw [hv]
  cases m <;> rfl

/-! ### Two attempts at one place -/

theorem Recognizes.difference (hx : Recognizes text skips x rx) (hy : Recognizes text skips y ry) :
    Recognizes text skips (difference x y) (.difference rx ry) := by
  refine ⟨.difference hx.reading hy.reading, fun s hs hskips => ?_⟩
  simp only [Step.difference, ensures_bind, ensures_place, ensures_ite, ensures_pure,
    ensures_rewind, ensures_offset, ensures_missAt, Recognizer.difference]
  refine (hx.run hs hskips).mono (fun m t h => ?_) fun e _ he => he.andThen _
  obtain ⟨hpast, hv⟩ := h
  rw [hv]
  cases m with
  | miss => rfl
  | hit n =>
      rw [if_pos (Match.isHit_hit n), Match.verdict_hit, Verdict.andThen_hit]
      refine (hy.retry (.rewound hs hpast.level) hskips).mono (fun m' u h => ?_)
        fun e _ he => ?_
      · obtain ⟨hpast', hv'⟩ := h
        rw [hv']
        cases m' with
        | miss => rfl
        | hit k =>
            have hstop : t.scanner.position.offset ≤ u.scanner.offset ↔ n ≤ k := by
              rw [Scanner.offset_position, hpast.offset, hpast'.offset]
              simp
            simp only [Match.isHit_hit, Bool.true_and, decide_eq_true_eq, hstop,
              Match.verdict_hit]
            split <;> rfl
      · exact he.congr (by rintro _ h; rw [h]; rfl) (by intro h; rw [h]; rfl)

theorem Recognizes.exclusiveOr (hx : Recognizes text skips x rx)
    (hy : Recognizes text skips y ry) :
    Recognizes text skips (exclusiveOr x y) (.exclusiveOr rx ry) := by
  refine ⟨.exclusiveOr hx.reading hy.reading, fun s hs hskips => ?_⟩
  simp only [Step.exclusiveOr, ensures_bind, ensures_place, ensures_rewind, Recognizer.exclusiveOr]
  refine (hx.run hs hskips).mono (fun m t h => ?_) fun e _ he =>
    he.congr (by rintro _ h; rw [h]) (by intro h; rw [h])
  obtain ⟨hpast, hv⟩ := h
  rw [hv]
  have hretry := hy.retry (.rewound hs hpast.level) hskips
  cases m with
  | miss =>
      refine hretry.imp fun m' u h => ?_
      obtain ⟨-, hv'⟩ := h
      rw [Match.verdict_miss, hv']
      cases m' <;> rfl
  | hit n =>
      refine hretry.mono (fun m' u h => ?_) fun e _ he => he.negate n
      obtain ⟨-, hv'⟩ := h
      rw [Match.verdict_hit, hv']
      cases m' <;> rfl

theorem Recognizes.intersection (hx : Recognizes text skips x rx)
    (hy : Recognizes text skips y ry) :
    Recognizes text skips (intersection x y) (.intersection rx ry) := by
  refine ⟨.intersection hx.reading hy.reading, fun s hs hskips => ?_⟩
  simp only [Step.intersection, ensures_bind, ensures_place, ensures_ite, ensures_pure,
    ensures_rewind, ensures_offset, ensures_missAt, Recognizer.intersection]
  refine (hx.run hs hskips).mono (fun m t h => ?_) fun e _ he => he.andThen _
  obtain ⟨hpast, hv⟩ := h
  rw [hv]
  cases m with
  | miss => rfl
  | hit n =>
      rw [if_pos (Match.isHit_hit n), Match.verdict_hit, Verdict.andThen_hit]
      refine (hy.retry (.rewound hs hpast.level) hskips).mono (fun m' u h => ?_)
        fun e _ he => he.andThen _
      obtain ⟨hpast', hv'⟩ := h
      rw [hv']
      cases m' with
      | miss => rfl
      | hit k =>
          have hstop : u.scanner.offset = t.scanner.offset ↔ k = n := by
            rw [hpast.offset, hpast'.offset]
            simp
          simp only [Match.isHit_hit, Bool.true_and, decide_eq_true_eq, hstop, Match.verdict_hit,
            Verdict.andThen_hit]
          split <;> rfl

/-! ### Loops

A loop has fuel for as many rounds as there are characters left and one more. Each round but the last
takes a character, so the fuel never runs out. -/

/-- A round that hits and advances goes on to the rounds behind it. -/
theorem iterate_next {round : Recognizer} (hhit : round (s.rest text) = .hit n) (hn : 0 < n)
    (hpast : Past text s n t) :
    round.iterate (s.rest text) = (round.iterate (t.rest text)).after n := by
  rw [Recognizer.iterate_hit hhit hn hpast.length_le, hpast.rest]

/-- Behind a round that advances less fuel is enough. -/
theorem fuel_next {fuel : Nat} (hpast : Past text s n t) (hn : 0 < n)
    (hfuel : text.size - s.scanner.offset < fuel + 1) : text.size - t.scanner.offset < fuel := by
  have hin := hpast.inBounds
  have hoffset := hpast.offset
  omega

/-- A repetition ends with a round that misses or reads nothing. -/
theorem ends_iff (hpast : Past text s m.length t) :
    (!m.isHit || t.scanner.offset = s.scanner.offset) = true ↔ m.length = 0 := by
  have hstays : t.scanner.offset = s.scanner.offset ↔ m.length = 0 := by
    rw [hpast.offset]
    omega
  cases m with
  | miss => simp
  | hit n => simpa using hstays

theorem progress_eq {w : List Char} (hv : rx w = m.verdict) :
    rx.progress w = if m.length = 0 then .miss else .hit m.length := by
  rw [Recognizer.progress, hv]
  cases m with
  | miss => rfl
  | hit n => cases n <;> rfl

/-- The rounds behind the first one are those of the recursion on the text. -/
theorem repeatMany_iterates (hb : Bridges text skips between rb)
    (hx : Recognizes text skips x rx) (fuel count : Nat) (s : State V W) (hcount : 0 < count)
    (hfuel : text.size - s.scanner.offset < fuel) (hs : s.scanner.offset ≤ text.size)
    (hskips : s.skips = skips) :
    (repeatMany between x fuel count).Ensures s
      (fun c t => 0 < c ∧
        ∃ n, (rb.seq rx.progress).iterate (s.rest text) = .hit n ∧ Past text s n t)
      fun e _ => e.Fits ((rb.seq rx.progress).iterate (s.rest text)) := by
  induction fuel generalizing count s with
  | zero => omega
  | succ fuel ih =>
      simp only [Step.repeatMany, skipBefore, if_pos hcount, ensures_bind, ensures_place,
        ensures_offset, ensures_ite, ensures_rewind, ensures_pure]
      refine (hb s hs hskips).mono (fun _ t h => ?_) fun e _ he => .iterate (he.andThen _)
      obtain ⟨k, hk, hgap⟩ := h
      have hround : (rb.seq rx.progress) (s.rest text) = (rx.progress (t.rest text)).after k := by
        rw [hgap.rest, Recognizer.seq, hk, Verdict.andThen_hit]
      refine (hx.run hgap.inBounds (hgap.skips.trans hskips)).mono (fun m u h => ?_)
        fun e _ he => .iterate ?_
      · obtain ⟨hpast, hv⟩ := h
        rw [progress_eq hv] at hround
        have hbehind := hgap.trans hpast
        by_cases hlength : m.length = 0
        · rw [if_pos hlength] at hround
          rw [if_pos ((ends_iff hpast).2 hlength)]
          refine ⟨?_, 0, Recognizer.iterate_miss hround, .rewound hs hbehind.level⟩
          split <;> omega
        · rw [if_neg hlength] at hround
          rw [if_neg (mt (ends_iff hpast).1 hlength), iterate_next hround (by omega) hbehind]
          refine (ih (count + 1) u (by omega) (fuel_next hbehind (by omega) hfuel)
            hbehind.inBounds (hbehind.skips.trans hskips)).mono (fun c v h => ?_)
            fun e _ he => he.after _
          obtain ⟨hc, j, hj, hrest⟩ := h
          exact ⟨hc, _, by rw [hj, Verdict.after_hit], hbehind.trans hrest⟩
      · rw [hround]
        exact he.progress.after k

/-- All rounds of a repetition. None of them hits, and the first one missed, or they match what the
recognizer does. -/
theorem repeatMany_plus (hb : Bridges text skips between rb) (hx : Recognizes text skips x rx)
    (fuel : Nat) (hfuel : text.size - s.scanner.offset < fuel)
    (hs : s.scanner.offset ≤ text.size) (hskips : s.skips = skips) :
    (repeatMany between x fuel 0).Ensures s
      (fun c t => c = 0 ∧ Recognizer.plus rb rx (s.rest text) = .miss ∧ Past text s 0 t ∨
        0 < c ∧ ∃ n, Recognizer.plus rb rx (s.rest text) = .hit n ∧ Past text s n t)
      fun e _ => e.Fits (Recognizer.plus rb rx (s.rest text)) := by
  cases fuel with
  | zero => omega
  | succ fuel =>
      simp only [Step.repeatMany, skipBefore, Nat.lt_irrefl, if_false, ensures_bind, ensures_place,
        ensures_offset, ensures_ite, ensures_rewind, ensures_pure, gt_iff_lt]
      refine (hx.run hs hskips).mono (fun m t h => ?_) fun e _ he => he.andThen _
      obtain ⟨hpast, hv⟩ := h
      rw [Recognizer.plus, hv]
      by_cases hlength : m.length = 0
      · rw [if_pos ((ends_iff hpast).2 hlength)]
        cases m with
        | miss => exact .inl ⟨rfl, rfl, .rewound hs hpast.level⟩
        | hit n =>
            obtain rfl : n = 0 := hlength
            exact .inr ⟨Nat.one_pos, 0, rfl, .rewound hs hpast.level⟩
      · rw [if_neg (mt (ends_iff hpast).1 hlength)]
        cases m with
        | miss => exact absurd rfl hlength
        | hit n =>
            rw [Match.length_hit] at hlength hpast
            rw [Match.verdict_hit, Verdict.andThen_hit, if_neg hlength, ← hpast.rest]
            refine (repeatMany_iterates hb hx fuel 1 t Nat.one_pos
              (fuel_next hpast (by omega) hfuel) hpast.inBounds (hpast.skips.trans hskips)).mono
              (fun c u h => ?_) fun e _ he => he.after _
            obtain ⟨hc, j, hj, hrest⟩ := h
            exact .inr ⟨hc, _, by rw [hj, Verdict.after_hit], hpast.trans hrest⟩

theorem Recognizes.plus (hmoving : Moving setting.source.text between)
    (hb : Bridges setting.source.text skips between rb)
    (hx : Recognizes setting.source.text skips x rx) :
    Recognizes setting.source.text skips (repeated setting between x 1) (.plus rb rx) := by
  refine ⟨.repeated hmoving hx.reading 1, fun s hs hskips => ?_⟩
  simp only [Step.repeated, rounds, ensures_bind, ensures_place, ensures_ite, ensures_missAt,
    ensures_matchedSince]
  refine (repeatMany_plus hb hx _ (Nat.lt_succ_self _) hs hskips).imp fun c t ht => ?_
  rcases ht with ⟨rfl, hmiss, -⟩ | ⟨hc, n, hhit, hpast⟩
  · exact hmiss
  · rw [if_neg (Nat.not_lt.2 hc), hpast.matched]
    exact hhit

theorem Recognizes.star (hmoving : Moving setting.source.text between)
    (hb : Bridges setting.source.text skips between rb)
    (hx : Recognizes setting.source.text skips x rx) :
    Recognizes setting.source.text skips (repeated setting between x 0) (.star rb rx) := by
  refine ⟨.repeated hmoving hx.reading 0, fun s hs hskips => ?_⟩
  simp only [Step.repeated, rounds, ensures_bind, ensures_place,
    ensures_matchedSince, Nat.not_lt_zero, if_false, Recognizer.star, Recognizer.optional,
    Recognizer.choice]
  refine (repeatMany_plus hb hx _ (Nat.lt_succ_self _) hs hskips).mono (fun c t ht => ?_)
    fun e _ he => he.orElse _
  rcases ht with ⟨-, hmiss, hpast⟩ | ⟨-, n, hhit, hpast⟩
  · rw [hmiss, hpast.matched]
    rfl
  · rw [hhit, hpast.matched]
    rfl

/-- A group that hits goes on to the groups behind it if it advanced, and otherwise ends the list. -/
theorem listTail_next {round : Recognizer} {fuel : Nat} (hhit : round (s.rest text) = .hit n)
    (hpast : Past text s n t) (hfuel : text.size - s.scanner.offset < fuel + 1)
    (hskips : s.skips = skips)
    (hrest : ∀ t : State V W, text.size - t.scanner.offset < fuel →
      t.scanner.offset ≤ text.size → t.skips = skips →
      (listTail between x y fuel).Ensures t
        (fun _ u => ∃ k, round.iterate (t.rest text) = .hit k ∧ Past text t k u)
        fun e _ => e.Fits (round.iterate (t.rest text))) :
    if t.scanner.offset = s.scanner.position.offset then
      ∃ k, round.iterate (s.rest text) = .hit k ∧ Past text s k t
    else (listTail between x y fuel).Ensures t
      (fun _ u => ∃ k, round.iterate (s.rest text) = .hit k ∧ Past text s k u)
      fun e _ => e.Fits (round.iterate (s.rest text)) := by
  rw [hpast.offset, Scanner.offset_position]
  by_cases hn : n = 0
  · subst hn
    rw [if_pos (Nat.add_zero _)]
    exact ⟨0, Recognizer.iterate_empty hhit, hpast⟩
  · rw [if_neg (by omega), iterate_next hhit (by omega) hpast]
    refine (hrest t (fuel_next hpast (by omega) hfuel) hpast.inBounds
      (hpast.skips.trans hskips)).mono (fun _ u h => ?_) fun e _ he => he.after n
    obtain ⟨k, hk, hbehind⟩ := h
    exact ⟨n + k, by rw [hk, Verdict.after_hit], hpast.trans hbehind⟩

theorem listTail_iterates (hb : Bridges text skips between rb) (hx : Recognizes text skips x rx)
    (hy : Recognizes text skips y ry) (fuel : Nat) (s : State V W)
    (hfuel : text.size - s.scanner.offset < fuel) (hs : s.scanner.offset ≤ text.size)
    (hskips : s.skips = skips) :
    (listTail between x y fuel).Ensures s
      (fun _ t => ∃ n, (rb.seq (ry.seq (rb.seq rx))).iterate (s.rest text) = .hit n ∧
        Past text s n t)
      fun e _ => e.Fits ((rb.seq (ry.seq (rb.seq rx))).iterate (s.rest text)) := by
  rw [← Recognizer.seq_assoc]
  induction fuel generalizing s with
  | zero => omega
  | succ fuel ih =>
      simp only [Step.listTail, ensures_bind, ensures_place, ensures_offset, ensures_ite,
        ensures_rewind, ensures_pure]
      refine (hb.followed hy hs hskips).mono
        (fun _ t h => h.mono (fun m u h => ?_) fun e _ he => .iterate (he.andThen _))
        fun e _ he => .iterate (he.andThen _)
      obtain ⟨k, hk, hseparator⟩ := h
      cases m with
      | miss =>
          have hgroup : (rb.seq ry).seq (rb.seq rx) (s.rest text) = .miss := by
            rw [Recognizer.seq, hk]
            rfl
          exact ⟨0, Recognizer.iterate_miss hgroup, .rewound hs hseparator.level⟩
      | hit j =>
          rw [Match.length_hit] at hseparator
          have hgroup : (rb.seq ry).seq (rb.seq rx) (s.rest text) =
              (rb.seq rx (u.rest text)).after (k + j) := by
            rw [Recognizer.seq, hk, Match.verdict_hit, Verdict.after_hit, Verdict.andThen_hit,
              hseparator.rest]
          rw [if_pos (Match.isHit_hit j)]
          refine (hb.followed hx hseparator.inBounds (hseparator.skips.trans hskips)).mono
            (fun _ v h => h.mono (fun m w h => ?_) fun e _ he => .iterate ?_)
            fun e _ he => .iterate ?_
          · obtain ⟨k', hk', helement⟩ := h
            have hbehind := hseparator.trans helement
            rw [hk'] at hgroup
            cases m with
            | miss => exact ⟨0, Recognizer.iterate_miss hgroup, .rewound hs hbehind.level⟩
            | hit n =>
                rw [if_pos (Match.isHit_hit n)]
                exact listTail_next hgroup hbehind hfuel hskips ih
          · rw [hgroup]
            exact he.after _
          · rw [hgroup]
            exact he.after _

theorem Recognizes.list (hmoving : Moving setting.source.text between)
    (hb : Bridges setting.source.text skips between rb)
    (hx : Recognizes setting.source.text skips x rx)
    (hy : Recognizes setting.source.text skips y ry) :
    Recognizes setting.source.text skips (list setting between x y) (.list rb rx ry) := by
  refine ⟨.list hmoving hx.reading hy.reading, fun s hs hskips => ?_⟩
  simp only [Step.list, rounds, ensures_bind, ensures_place, ensures_ite, ensures_pure,
    ensures_matchedSince]
  rw [Recognizer.list, Recognizer.seq]
  refine (hx.run hs hskips).mono (fun m t h => ?_) fun e _ he => he.andThen _
  obtain ⟨hpast, hv⟩ := h
  rw [hv]
  cases m with
  | miss => rfl
  | hit n =>
      rw [Match.length_hit] at hpast
      rw [if_pos (Match.isHit_hit n), Match.verdict_hit, Verdict.andThen_hit, ← hpast.rest]
      have hfuel : setting.source.text.size - t.scanner.offset <
          setting.source.text.size - s.scanner.offset + 1 := by
        rw [hpast.offset]
        omega
      refine (listTail_iterates hb hx hy _ t hfuel hpast.inBounds (hpast.skips.trans hskips)).mono
        (fun _ u h => ?_) fun e _ he => he.after n
      obtain ⟨k, hk, hbehind⟩ := h
      rw [hk, Verdict.after_hit, (hpast.trans hbehind).matched]
      rfl

/-! ### Tokens, skipping and calls -/

theorem Recognizes.inToken (hx : Recognizes text false x rx) (skips : Bool) :
    Recognizes text skips (inToken x) rx := by
  refine ⟨hx.reading.inToken, fun s hs _ => ?_⟩
  rw [Step.inToken, ensures_between]
  exact hx.verdict _ hs (by simp [State.skips, Scanner.beginToken])

/-- Skipping matches what lies in between. Nothing is skipped while the skip rule runs, so it is
called as in a token. -/
theorem Bridges.skip {call : RuleId → Step V W Match} {mean : Bool → RuleId → Recognizer}
    (hcall : ∀ id, setting.skipRule = some id → Recognizes text false (call id) (mean false id))
    (skips : Bool) :
    Bridges text skips (skip setting call) (gap setting.skipRule mean skips) := by
  rintro s hs rfl
  simp only [Step.skip, ensures_bind, ensures_get, State.activeSkip_eq]
  cases hskips : s.skips with
  | false => exact ⟨0, rfl, .refl hs⟩
  | true =>
      cases hrule : setting.skipRule with
      | none => exact ⟨0, rfl, .refl hs⟩
      | some id =>
          simp only [inSkip, if_true, ensures_bind, ensures_place, ensures_height,
            ensures_between, ensures_ite, ensures_rewind, ensures_dropAbove, gap,
            Recognizer.optional, Recognizer.choice]
          refine .mono ((hcall id hrule).run ?offset ?skips) (fun m t h => ?_)
            fun e _ he => he.orElse _
          case offset => exact hs
          case skips => simp [State.skips, Scanner.beginSkip]
          obtain ⟨hpast, hv⟩ := h
          have hskipping : s.scanner.skipping = false := by
            simp only [State.skips, Bool.and_eq_true, Bool.not_eq_true'] at hskips
            exact hskips.1
          have hlevel := State.level_endSkip hskipping hpast.level
          change mean false id (s.rest text) = _ at hv
          rw [hv]
          cases m with
          | hit n => exact ⟨n, rfl, hlevel, hpast.offset, hpast.inBounds⟩
          | miss => exact ⟨0, rfl, hlevel, rfl, hs⟩

/-- A call that passes nothing and takes nothing back answers as the rule called. -/
theorem Recognizes.nonterminal (hx : Recognizes text skips x rx) {rule : Rule V W}
    (hvalue : rule.hasValue = false) (instanceName : String) :
    Recognizes text skips (nonterminal rule instanceName [] x) rx := by
  refine ⟨hx.reading.nonterminal rule instanceName [], fun s hs hskips => ?_⟩
  simp only [Step.nonterminal, pushArguments, ensures_bind, ensures_pure, hvalue,
    Bool.and_false, Bool.false_eq_true, if_false]
  exact hx.verdict s hs hskips

/-- The activation of a rule that inherits and returns nothing answers as its tree. -/
theorem Recognizes.activate (hx : Recognizes setting.source.text skips x rx) {rule : Rule V W}
    (hvalue : rule.hasValue = false) (hinherited : rule.inherited = []) :
    Recognizes setting.source.text skips (activate setting rule x) rx := by
  refine ⟨hx.reading.activate setting rule, fun s hs hskips => ?_⟩
  simp only [Step.activate, ensures_bind, ensures_place]
  refine ensures_enter setting rule (fun _ => trivial) (fun log notices => ?_) fun _ _ => trivial
  apply ensures_closing setting rule
  simp only [Step.evaluate, hvalue, hinherited, List.length_nil, popArguments, ensures_inFrame,
    ensures_bind, ensures_pure, ensures_modifyFrame, ensures_ite, ensures_missAt,
    ensures_matchedSince, Bool.false_eq_true, if_false]
  refine .mono (hx.run ?offset ?skips) (fun m t h => ?_) fun e t he => ?_
  case offset => exact hs
  case skips => exact hskips
  · obtain ⟨hpast, hv⟩ := h
    change rx (s.rest setting.source.text) = _ at hv
    rw [hv]
    cases m with
    | miss => exact ensures_leave setting rule _ _ (fun _ _ => rfl) fun _ _ => trivial
    | hit n =>
        have hmatched := hpast.matched
        rw [if_pos (Match.isHit_hit n)]
        refine ensures_leave setting rule _ _ (fun _ _ => ?_) fun _ _ => trivial
        exact congrArg Match.verdict hmatched.symm
  · exact ensures_leave setting rule _ _ (fun _ _ => he) fun _ _ => he

end Step

/-! ### Trees and rules -/

/-- A setting in which nothing but the text counts: every reference leads into the rule table, no
rule inherits or returns anything, and no tree holds an action. -/
structure Setting.Plain (setting : Setting V W) : Prop where
  linked : LinkedTable setting.rules
  skipRule : ∀ id, setting.skipRule = some id → arity? setting.rules id = some 0
  hasValue : ∀ (i : Nat) (rule : Rule V W), setting.rules[i]? = some rule → rule.hasValue = false
  inherited : ∀ (i : Nat) (rule : Rule V W), setting.rules[i]? = some rule → rule.inherited = []
  actionFree : ∀ (i : Nat) (rule : Rule V W),
    setting.rules[i]? = some rule → rule.definition.ActionFree

/-- The meaning of a tree in a setting, with fuel for a depth of nesting. -/
def Setting.meaning (setting : Setting V W) (fuel : Nat) (skips : Bool) (p : LinkedParser V W) :
    Recognizer :=
  p.meaning setting.skipRule (ruleMeaning setting.rules setting.skipRule fuel) skips

theorem evalParser_recognizes {setting : Setting V W} (hplain : setting.Plain)
    {call : RuleId → Step V W Match} {mean : Bool → RuleId → Recognizer}
    (hreading : ∀ id, Step.Reading setting.source.text (call id))
    (hcall : ∀ skips id, (arity? setting.rules id).isSome →
      Step.Recognizes setting.source.text skips (call id) (mean skips id))
    {p : LinkedParser V W} (hlinked : p.LinkedIn setting.rules) (hfree : p.ActionFree)
    (skips : Bool) :
    Step.Recognizes setting.source.text skips (evalParser setting call p)
      (p.meaning setting.skipRule mean skips) := by
  have hmoving := Step.Moving.skip setting hreading
  have hgap (skips : Bool) : Step.Bridges setting.source.text skips (.skip setting call)
      (gap setting.skipRule mean skips) :=
    .skip (fun id hid => hcall false id (by rw [hplain.skipRule id hid]; rfl)) skips
  induction p generalizing skips with
  | empty => exact ⟨fun s => ⟨rfl, rfl, id, fun _ => rfl⟩, fun _ _ _ => rfl⟩
  | anyChar => exact .scanOne skips setting _
  | atEnd => exact .atEnd skips setting
  | char c => exact .scanOne skips setting _
  | literal word => exact .literal skips setting _
  | oneOf cls => exact .scanOne skips setting _
  | set chars => exact .scanOne skips setting _
  | range first last => exact .scanOne skips setting _
  | keyword word continuation =>
      cases continuation with
      | none => exact .keyword (.seesIdCont skips setting) _
      | some rule =>
          have hrule : arity? setting.rules rule.id = some 0 := hlinked
          exact .keyword (.lookAhead (hcall skips rule.id (by rw [hrule]; rfl))) _
  | keywordList selector words ih => exact (ih hlinked hfree skips).keywordList words
  | sequence l r ihl ihr =>
      exact .sequence hmoving (hgap skips) (ihl hlinked.1 hfree.1 skips)
        (ihr hlinked.2 hfree.2 skips)
  | alternative l r ihl ihr =>
      exact (ihl hlinked.1 hfree.1 skips).alternative (ihr hlinked.2 hfree.2 skips)
  | optional body ih => exact (ih hlinked hfree skips).optional
  | star body ih => exact .star hmoving (hgap skips) (ih hlinked hfree skips)
  | plus body ih => exact .plus hmoving (hgap skips) (ih hlinked hfree skips)
  | difference l r ihl ihr =>
      exact (ihl hlinked.1 hfree.1 skips).difference (ihr hlinked.2 hfree.2 skips)
  | exclusiveOr l r ihl ihr =>
      exact (ihl hlinked.1 hfree.1 skips).exclusiveOr (ihr hlinked.2 hfree.2 skips)
  | intersection l r ihl ihr =>
      exact (ihl hlinked.1 hfree.1 skips).intersection (ihr hlinked.2 hfree.2 skips)
  | list element separator ihe ihs =>
      exact .list hmoving (hgap skips) (ihe hlinked.1 hfree.1 skips) (ihs hlinked.2 hfree.2 skips)
  | grouping body ih => exact ih hlinked hfree skips
  | token body ih => exact (ih hlinked hfree false).inToken skips
  | expectation body ih => exact (ih hlinked hfree skips).expectation _
  | action action body ih => exact hfree.1.elim
  | nonterminal rule instanceName args =>
      obtain ⟨target, htarget, hlength⟩ := arity?_eq_some.1 hlinked
      rw [hplain.inherited _ target htarget] at hlength
      obtain rfl := List.eq_nil_of_length_eq_zero hlength.symm
      have hrule := hcall skips rule.id (by rw [arity?, htarget]; rfl)
      rw [evalParser, htarget]
      exact hrule.nonterminal (hplain.hasValue _ target htarget) instanceName

theorem evalRule_recognizes {setting : Setting V W} (hplain : setting.Plain) (fuel : Nat)
    (skips : Bool) (id : RuleId) (hid : (arity? setting.rules id).isSome) :
    Step.Recognizes setting.source.text skips (evalRule setting fuel id)
      (ruleMeaning setting.rules setting.skipRule fuel skips id) := by
  induction fuel generalizing skips id with
  | zero => exact ⟨evalRule_reading setting 0 id, fun _ _ _ => rfl⟩
  | succ fuel ih =>
      obtain ⟨rule, hrule⟩ : ∃ rule, setting.rules[id.index]? = some rule :=
        ⟨_, Array.getElem?_eq_getElem (by simpa [arity?] using hid)⟩
      rw [evalRule, ruleMeaning, hrule]
      exact (evalParser_recognizes hplain (evalRule_reading setting fuel) ih
        (hplain.linked _ rule hrule) (hplain.actionFree _ rule hrule) skips).activate
        (hplain.hasValue _ rule hrule) (hplain.inherited _ rule hrule)

/-- In a plain setting a tree evaluates to what it means on the text that lies ahead, wherever the
evaluation starts and whether or not it skips: a miss, a hit of some length, or the failure of an
expectation. It can also be cut off by the nesting limit or by a trace that cannot be written, and
it runs out of fuel only where the meaning is not known with this fuel; it breaks off in no other
way. A meaning once known stays the same with more fuel. -/
theorem evaluation_recognizes (setting : Setting V W) (hplain : setting.Plain)
    (p : LinkedParser V W) (hlinked : p.LinkedIn setting.rules) (hfree : p.ActionFree) (fuel : Nat)
    (s : State V W) (hs : s.scanner.offset ≤ setting.source.text.size) :
    (evalParser setting (evalRule setting fuel) p).Ensures s
      (fun m _ => setting.meaning fuel s.skips p (s.rest setting.source.text) = m.verdict)
      (fun e _ => e.Fits (setting.meaning fuel s.skips p (s.rest setting.source.text))) ∧
    ∀ w more, fuel ≤ more → setting.meaning fuel s.skips p w ≠ .unknown →
      setting.meaning more s.skips p w = setting.meaning fuel s.skips p w :=
  ⟨(evalParser_recognizes hplain (evalRule_reading setting fuel) (evalRule_recognizes hplain fuel)
      hlinked hfree s.skips).verdict s hs rfl,
    fun w _ hmore => Parser.meaning_below setting.skipRule
      (fun skips id => ruleMeaning_below setting.rules setting.skipRule hmore skips id) s.skips p w⟩

/-- Letters with blanks to skip between them. -/
def letterSetting : Setting Unit Unit where
  rules := #[⟨.ofNat 0, "blank", "letters.blank", "blank", .char ' ', none, [], [], []⟩,
    ⟨.ofNat 1, "letter", "letters.letter", "letter", .range 'a' 'z', none, [], [], []⟩]
  source := ⟨#['a', ' ', ','], 0, "letters"⟩
  skipRule := some (.ofNat 0)
  maxDepth := 0

theorem letterSetting_plain : letterSetting.Plain := by
  have hrule (i : Nat) (rule : Rule Unit Unit) (h : letterSetting.rules[i]? = some rule) :
      rule.definition.LinkedIn letterSetting.rules ∧ rule.hasValue = false ∧
        rule.inherited = [] ∧ rule.definition.ActionFree := by
    match i, h with
    | 0, h =>
      cases h
      exact ⟨trivial, rfl, rfl, trivial⟩
    | 1, h =>
      cases h
      exact ⟨trivial, rfl, rfl, trivial⟩
  refine ⟨fun i rule h => (hrule i rule h).1, fun id h => ?_, fun i rule h => (hrule i rule h).2.1,
    fun i rule h => (hrule i rule h).2.2.1, fun i rule h => (hrule i rule h).2.2.2⟩
  cases h
  rfl

/-- A letter and a comma, with the blank between them skipped. -/
theorem evaluation_recognizes_letter :
    letterSetting.meaning 2 true (.sequence (.nonterminal ⟨"letter", .ofNat 1⟩ "letter" [])
      (.char ',')) ['a', ' ', ','] = .hit 3 := by
  have h := evaluation_recognizes letterSetting letterSetting_plain
    (.sequence (.nonterminal ⟨"letter", .ofNat 1⟩ "letter" []) (.char ',')) ⟨rfl, trivial⟩
    ⟨trivial, trivial⟩ 2 (.start none ()) (Nat.zero_le _)
  exact h.1

end AttrGrammar.Parse

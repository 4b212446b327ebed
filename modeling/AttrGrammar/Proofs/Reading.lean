import AttrGrammar.Parse.Run
import AttrGrammar.Proofs.Ensures

/-! How evaluation moves through the text. A step that comes to its end has either missed, and then
it stands where it started, or hit, and then it stands as many characters further as its match is
long. It leaves the levels of nesting as they were. Some combinators give back what a part read and
others rely on the part to have done so; that all of them together keep to this is shown by one
lemma for each combinator and an induction over trees and over the nesting of activations. -/

namespace AttrGrammar.Parse
open Text Scan Peg

variable {V W α : Type}

/-- The levels of nesting at which a parse stands: how many activations and token groups are open,
and whether the skip rule runs. -/
structure Level where
  depth : Nat
  tokenDepth : Nat
  skipping : Bool
  deriving DecidableEq

namespace State

def level (s : State V W) : Level := ⟨s.depth, s.scanner.tokenDepth, s.scanner.skipping⟩

@[simp]
theorem level_mapCursor (f : Cursor → Cursor) (s : State V W) :
    { s with scanner := s.scanner.mapCursor f }.level = s.level := rfl

variable {s t : State V W}

theorem level_eq_iff : t.level = s.level ↔ t.depth = s.depth ∧
    t.scanner.tokenDepth = s.scanner.tokenDepth ∧ t.scanner.skipping = s.scanner.skipping := by
  simp only [level, Level.mk.injEq]

/-- A token group that has been closed leaves the level at which it was opened. -/
theorem level_endToken (h : t.level = { s with scanner := s.scanner.beginToken }.level) :
    { t with scanner := t.scanner.endToken }.level = s.level := by
  obtain ⟨hdepth, htoken, hskipping⟩ := level_eq_iff.1 h
  refine level_eq_iff.2 ⟨hdepth, ?_, hskipping⟩
  show t.scanner.tokenDepth - 1 = s.scanner.tokenDepth
  rw [htoken]
  rfl

theorem level_endSkip (hskipping : s.scanner.skipping = false)
    (h : t.level = { s with scanner := s.scanner.beginSkip }.level) :
    { t with scanner := t.scanner.endSkip }.level = s.level := by
  obtain ⟨hdepth, htoken, -⟩ := level_eq_iff.1 h
  exact level_eq_iff.2 ⟨hdepth, htoken, hskipping.symm⟩

end State

/-- The step from `s` to `t` went forward in the text, or stayed, and is back at its level. -/
structure Forward (text : Buffer) (s t : State V W) : Prop where
  level : t.level = s.level
  offset_le : s.scanner.offset ≤ t.scanner.offset
  inBounds : s.scanner.offset ≤ text.size → t.scanner.offset ≤ text.size

/-- The step from `s` to `t` read what its match tells: it is back at its level, stands as many
characters further as the match is long, and after a miss it stands at the very place where it
started. -/
structure Reads (text : Buffer) (s : State V W) (m : Match) (t : State V W) : Prop where
  level : t.level = s.level
  offset : t.scanner.offset = s.scanner.offset + m.length
  inBounds : s.scanner.offset ≤ text.size → t.scanner.offset ≤ text.size
  position : m = .miss → t.scanner.position = s.scanner.position

variable {text : Buffer} {s t u : State V W} {m : Match}

theorem Forward.refl (text : Buffer) (s : State V W) : Forward text s s :=
  ⟨rfl, Nat.le_refl _, id⟩

theorem Forward.trans (h : Forward text s t) (h' : Forward text t u) : Forward text s u :=
  ⟨h'.level.trans h.level, Nat.le_trans h.offset_le h'.offset_le, fun hs => h'.inBounds (h.inBounds hs)⟩

/-- Going back to where the step started undoes its reading. -/
theorem Forward.rewound (h : Forward text s t) :
    Forward text s { t with scanner := t.scanner.mapCursor (·.restore s.scanner.position) } :=
  ⟨h.level, by simp, by simp⟩

theorem Forward.missed (h : Forward text s t) :
    Reads text s .miss { t with scanner := t.scanner.mapCursor (·.restore s.scanner.position) } :=
  ⟨h.level, by simp [Match.length], by simp, by simp⟩

theorem Forward.matched (h : Forward text s t) :
    Reads text s (.hit (t.scanner.offset - s.scanner.offset)) t :=
  ⟨h.level, by have := h.offset_le; simp only [Match.length]; omega, h.inBounds, by simp⟩

theorem Reads.forward (h : Reads text s m t) : Forward text s t :=
  ⟨h.level, by rw [h.offset]; omega, h.inBounds⟩

theorem Reads.missed (s : State V W) : Reads text s .miss s :=
  ⟨rfl, by simp [Match.length], id, fun _ => rfl⟩

/-- A step that starts again from the same place and level reads from there as from the start. -/
theorem Reads.restart (h : Reads text t m u) (hlevel : t.level = s.level)
    (hplace : t.scanner.position = s.scanner.position) : Reads text s m u := by
  have hoffset : t.scanner.offset = s.scanner.offset := congrArg Position.offset hplace
  exact ⟨h.level.trans hlevel, by rw [h.offset, hoffset], by rw [← hoffset]; exact h.inBounds,
    fun hm => (h.position hm).trans hplace⟩

/-- Where a step ends only the level and the place count. -/
theorem Reads.settle (h : Reads text s m t) (hlevel : u.level = t.level)
    (hplace : u.scanner.position = t.scanner.position) : Reads text s m u := by
  have hoffset : u.scanner.offset = t.scanner.offset := congrArg Position.offset hplace
  exact ⟨hlevel.trans h.level, by rw [hoffset, h.offset], by rw [hoffset]; exact h.inBounds,
    fun hm => hplace.trans (h.position hm)⟩

/-- An attempt from the place to which a first one has been taken back. -/
theorem Forward.retried (h : Forward text s t)
    (h' : Reads text { t with scanner := t.scanner.mapCursor (·.restore s.scanner.position) } m u) :
    Reads text s m u :=
  h'.restart h.level rfl

namespace Step

/-- A step that, when it comes to its end, went forward or stayed. -/
def Moving (text : Buffer) (x : Step V W α) : Prop :=
  ∀ s, x.Ensures s (fun _ t => Forward text s t) fun _ _ => True

/-- A step that, when it comes to its end, read what its match tells. -/
def Reading (text : Buffer) (x : Step V W Match) : Prop :=
  ∀ s, x.Ensures s (Reads text s) fun _ _ => True

variable {setting : Setting V W} {x y : Step V W Match} {gap : Step V W Unit}

/-! ### Reading characters and words -/

theorem Reading.scanOne (setting : Setting V W) (accept : Char → Bool) :
    Reading setting.source.text (scanOne setting accept) := by
  intro s
  simp only [Step.scanOne, ensures_bind, ensures_get]
  split
  · next c hc =>
    simp only [ensures_ite, ensures_bind, ensures_scan, ensures_pure]
    split
    · have hlt : s.scanner.cursor.offset < setting.source.text.size := by
        rw [Cursor.peek?] at hc
        exact (Array.getElem?_eq_some_iff.1 hc).1
      have hoffset := Cursor.offset_advance hlt
      exact ⟨rfl, hoffset, fun _ => by rw [Scanner.offset, Scanner.mapCursor, hoffset]; omega,
        by simp⟩
    · exact .missed s
  · exact .missed s

theorem Reading.atEnd (setting : Setting V W) : Reading setting.source.text (atEnd setting) := by
  intro s
  simp only [Step.atEnd, ensures_bind, ensures_get, ensures_pure]
  split
  · exact ⟨rfl, rfl, id, fun _ => rfl⟩
  · exact .missed s

theorem reads_word {word : List Char} (h : s.scanner.cursor.startsWith text word) :
    Reads text s (.hit word.length)
      { s with scanner := s.scanner.mapCursor (·.advanceBy text word.length) } := by
  have hoffset := Cursor.offset_advanceBy_word h
  refine ⟨rfl, hoffset, fun hs => ?_, by simp⟩
  have hroom := length_le_of_standsAt h
  change s.scanner.cursor.offset ≤ text.size at hs
  rw [Scanner.offset, Scanner.mapCursor, hoffset]
  omega

theorem Reading.literal (setting : Setting V W) (word : List Char) :
    Reading setting.source.text (literal setting word) := by
  intro s
  simp only [Step.literal, seesWord, ensures_bind, ensures_get, ensures_pure, ensures_ite,
    ensures_scan]
  split
  · next h => exact reads_word h
  · exact .missed s

/-- A step that, when it comes to its end, is where it was. -/
def Staying (x : Step V W α) : Prop :=
  ∀ s, x.Ensures s (fun _ t => t.level = s.level ∧ t.scanner.position = s.scanner.position)
    fun _ _ => True

theorem Staying.forward (h : t.level = s.level ∧ t.scanner.position = s.scanner.position) :
    Forward text s t := by
  have hoffset : t.scanner.offset = s.scanner.offset := congrArg Position.offset h.2
  exact ⟨h.1, Nat.le_of_eq hoffset.symm, fun hs => by rwa [hoffset]⟩

theorem Staying.bind {β : Type} {z : Step V W α} {f : α → Step V W β} (hz : Staying z)
    (hf : ∀ a, Staying (f a)) : Staying (z >>= f) := by
  intro s
  rw [ensures_bind]
  apply (hz s).imp
  intro a t ht
  apply (hf a t).imp
  intro _ u hu
  exact ⟨hu.1.trans ht.1, hu.2.trans ht.2⟩

theorem Staying.pop (rule : Rule V W) : Staying (pop rule) :=
  fun _ => ensures_pop rule (fun _ _ _ => ⟨rfl, rfl⟩) fun _ => trivial

theorem Staying.seesIdCont (setting : Setting V W) : Staying (seesIdCont setting) :=
  fun _ => ⟨rfl, rfl⟩

theorem Staying.lookAhead (hx : Reading text x) : Staying (lookAhead x) := by
  intro s
  simp only [Step.lookAhead, ensures_bind, ensures_place, ensures_height, ensures_dropAbove,
    ensures_rewind, ensures_pure]
  exact (hx s).imp fun _ t ht => ⟨ht.level, rfl⟩

theorem Reading.keyword {goesOn : Step V W Bool} (hgoesOn : Staying goesOn) (word : List Char) :
    Reading setting.source.text (keyword setting word goesOn) := by
  intro s
  simp only [Step.keyword, seesWord, ensures_bind, ensures_get, ensures_pure, ensures_ite,
    ensures_place, ensures_scan, ensures_missAt]
  split
  · next h =>
    have hword := reads_word h
    apply (hgoesOn _).imp
    intro goes t ht
    have hread : Reads setting.source.text s (.hit word.length) t := by
      have hoffset := congrArg Position.offset ht.2
      exact ⟨ht.1.trans hword.level, hoffset.trans hword.offset,
        fun hs => Nat.le_trans (Nat.le_of_eq hoffset) (hword.inBounds hs), by simp⟩
    split
    · exact hread.forward.missed
    · exact hread
  · exact .missed s

theorem Reading.keywordList (hx : Reading setting.source.text x) (words : List String) :
    Reading setting.source.text (keywordList setting x words) := by
  intro s
  simp only [Step.keywordList, ensures_bind, ensures_place, ensures_ite, ensures_pure,
    ensures_missAt]
  apply (hx s).imp
  intro m t ht
  split
  · split
    · exact ht
    · exact ht.forward.missed
  · exact ht

/-! ### Sequences and alternatives -/

theorem Reading.sequence (hgap : Moving text gap) (hx : Reading text x) (hy : Reading text y) :
    Reading text (sequence gap x y) := by
  intro s
  simp only [Step.sequence, ensures_bind, ensures_place, ensures_ite, ensures_matchedSince,
    ensures_missAt]
  apply (hx s).imp
  intro m t ht
  split
  · apply (hgap t).imp
    intro _ u hu
    apply (hy u).imp
    intro m' v hv
    have hforward := (ht.forward.trans hu).trans hv.forward
    split
    · exact hforward.matched
    · exact hforward.missed
  · exact ht.forward.missed

theorem Reading.alternative (hx : Reading text x) (hy : Reading text y) :
    Reading text (alternative x y) := by
  intro s
  simp only [Step.alternative, ensures_bind, ensures_place, ensures_ite, ensures_pure,
    ensures_rewind, ensures_missAt]
  apply (hx s).imp
  intro m t ht
  split
  · exact ht
  · apply (hy _).imp
    intro m' u hu
    have hread := ht.forward.retried hu
    split
    · exact hread
    · exact hread.forward.missed

theorem Reading.optional (hx : Reading text x) : Reading text (optional x) := by
  intro s
  simp only [Step.optional, ensures_bind, ensures_place, ensures_ite, ensures_pure, ensures_rewind]
  apply (hx s).imp
  intro m t ht
  split
  · exact ht
  · exact ⟨ht.level, rfl, id, fun _ => rfl⟩

/-! ### Loops -/

theorem Moving.skipBefore (hgap : Moving text gap) (count : Nat) :
    Moving text (skipBefore gap count) := by
  unfold Step.skipBefore
  split
  · exact hgap
  · exact fun s => .refl text s

theorem Moving.repeatMany (hgap : Moving text gap) (hx : Reading text x) (fuel count : Nat) :
    Moving text (repeatMany gap x fuel count) := by
  induction fuel generalizing count with
  | zero => exact fun _ => trivial
  | succ fuel ih =>
      intro s
      simp only [Step.repeatMany, ensures_bind, ensures_place, ensures_offset, ensures_ite,
        ensures_rewind, ensures_pure]
      apply (hgap.skipBefore count s).imp
      intro _ t ht
      apply (hx t).imp
      intro m u hu
      have hforward := ht.trans hu.forward
      split
      · exact hforward.rewound
      · exact (ih (count + 1) u).imp fun _ v hv => hforward.trans hv

theorem Reading.repeated (hgap : Moving setting.source.text gap)
    (hx : Reading setting.source.text x) (least : Nat) :
    Reading setting.source.text (repeated setting gap x least) := by
  intro s
  simp only [Step.repeated, ensures_bind, ensures_place, ensures_ite, ensures_missAt,
    ensures_matchedSince]
  apply (Moving.repeatMany hgap hx _ 0 s).imp
  intro count t ht
  split
  · exact ht.missed
  · exact ht.matched

theorem Moving.listTail (hgap : Moving text gap) (hx : Reading text x) (hy : Reading text y)
    (fuel : Nat) : Moving text (listTail gap x y fuel) := by
  induction fuel with
  | zero => exact fun _ => trivial
  | succ fuel ih =>
      intro s
      simp only [Step.listTail, ensures_bind, ensures_place, ensures_offset, ensures_ite,
        ensures_rewind, ensures_pure]
      apply (hgap s).imp
      intro _ t ht
      apply (hy t).imp
      intro m u hu
      have hseparator := ht.trans hu.forward
      split
      · apply (hgap u).imp
        intro _ v hv
        apply (hx v).imp
        intro m' w hw
        have hforward := (hseparator.trans hv).trans hw.forward
        split
        · split
          · exact hforward
          · exact (ih w).imp fun _ _ hrest => hforward.trans hrest
        · exact hforward.rewound
      · exact hseparator.rewound

theorem Reading.list (hgap : Moving setting.source.text gap) (hx : Reading setting.source.text x)
    (hy : Reading setting.source.text y) :
    Reading setting.source.text (list setting gap x y) := by
  intro s
  simp only [Step.list, ensures_bind, ensures_place, ensures_ite, ensures_pure,
    ensures_matchedSince]
  apply (hx s).imp
  intro m t ht
  cases m with
  | hit n =>
      exact (Moving.listTail hgap hx hy _ t).imp fun _ u hu => (ht.forward.trans hu).matched
  | miss => exact ht

/-! ### Two attempts at one place -/

theorem Reading.difference (hx : Reading text x) (hy : Reading text y) :
    Reading text (difference x y) := by
  intro s
  simp only [Step.difference, ensures_bind, ensures_place, ensures_ite, ensures_pure,
    ensures_rewind, ensures_offset, ensures_missAt]
  apply (hx s).imp
  intro m t ht
  split
  · next hm =>
    apply (hy _).imp
    intro m' u hu
    have hread := ht.forward.retried hu
    split
    · exact hread.forward.missed
    · refine ⟨hread.level, ht.offset, ht.inBounds, ?_⟩
      rintro rfl
      simp [Match.isHit] at hm
  · exact ht

theorem Reading.exclusiveOr (hx : Reading text x) (hy : Reading text y) :
    Reading text (exclusiveOr x y) := by
  intro s
  simp only [Step.exclusiveOr, ensures_bind, ensures_place, ensures_rewind]
  apply (hx s).imp
  intro m t ht
  apply (hy _).imp
  intro m' u hu
  have hread := ht.forward.retried hu
  cases m with
  | hit n =>
      cases m' with
      | hit n' => exact hread.forward.missed
      | miss => exact ⟨hread.level, ht.offset, ht.inBounds, by simp⟩
  | miss =>
      cases m' with
      | hit n' => exact hread
      | miss => exact hread.forward.missed

theorem Reading.intersection (hx : Reading text x) (hy : Reading text y) :
    Reading text (intersection x y) := by
  intro s
  simp only [Step.intersection, ensures_bind, ensures_place, ensures_ite, ensures_pure,
    ensures_rewind, ensures_offset, ensures_missAt]
  apply (hx s).imp
  intro m t ht
  split
  · next hm =>
    apply (hy _).imp
    intro m' u hu
    have hread := ht.forward.retried hu
    split
    · next h =>
      obtain ⟨-, hstop⟩ : m'.isHit = true ∧ u.scanner.offset = t.scanner.offset := by
        simpa using h
      refine ⟨hread.level, hstop.trans ht.offset, hread.inBounds, ?_⟩
      rintro rfl
      simp [Match.isHit] at hm
    · exact hread.forward.missed
  · exact ht

/-! ### Tokens, expectations and actions -/

theorem Reading.inToken (hx : Reading text x) : Reading text (inToken x) := by
  intro s
  rw [Step.inToken, ensures_between]
  apply (hx _).imp
  intro m t ht
  exact ⟨State.level_endToken ht.level, ht.offset, ht.inBounds, ht.position⟩

theorem Reading.expectation (hx : Reading text x) (expected : String) :
    Reading text (orElse x fun start => failExpectingHere setting expected start) := by
  intro s
  simp only [orElse, failExpectingHere, failExpecting, ensures_bind, ensures_place, ensures_ite,
    ensures_pure, ensures_fail]
  apply (hx s).imp
  intro m t ht
  split
  · exact ht
  · trivial

theorem Reading.action (hx : Reading text x) (run : ActionContext V W → ActionContext V W) :
    Reading text (action setting run x) := by
  intro s
  simp only [Step.action, act, ensures_bind, ensures_place, ensures_ite, ensures_pure,
    ensures_modifyGet]
  apply (hx s).imp
  intro m t ht
  split
  · split
    · trivial
    · simp only [ensures_ite, ensures_pure, ensures_missAt]
      split
      · exact ht.settle rfl rfl
      · exact ht.forward.missed.settle rfl rfl
  · exact ht

/-! ### Activations -/

theorem Staying.pushArguments (rule : Rule V W) (index : Nat) (args : List (Argument V)) :
    Staying (pushArguments rule index args) := by
  induction args generalizing index with
  | nil => exact fun _ => ⟨rfl, rfl⟩
  | cons argument rest ih =>
      intro s
      simp only [Step.pushArguments, ensures_bind, ensures_get]
      split
      · simp only [ensures_bind, ensures_push]
        exact ih (index + 1) _
      · trivial

theorem Staying.popArguments (rule : Rule V W) (n : Nat) (taken : List V) :
    Staying (popArguments rule n taken) := by
  induction n generalizing taken with
  | zero => exact fun _ => ⟨rfl, rfl⟩
  | succ n ih => exact (Staying.pop rule).bind fun v => ih (v :: taken)

theorem Reading.nonterminal (hx : Reading text x) (rule : Rule V W) (instanceName : String)
    (args : List (Argument V)) : Reading text (nonterminal rule instanceName args x) := by
  intro s
  simp only [Step.nonterminal, ensures_bind, ensures_ite, ensures_modifyFrame, ensures_pure]
  apply (Staying.pushArguments rule 0 args s).imp
  intro _ t ht
  apply (hx t).imp
  intro m u hu
  have hread := hu.restart ht.1 ht.2
  split
  · exact (Staying.pop rule u).imp fun v w hw => hread.settle hw.1 hw.2
  · exact hread

theorem Moving.skip (setting : Setting V W) {call : RuleId → Step V W Match}
    (hcall : ∀ id, Reading text (call id)) : Moving text (skip setting call) := by
  intro s
  simp only [Step.skip, ensures_bind, ensures_get]
  split
  · exact .refl text s
  · next id hactive =>
    have hskipping := (Scanner.activeSkip_eq_some.1 hactive).1
    simp only [inSkip, ensures_bind, ensures_place, ensures_height, ensures_between, ensures_ite,
      ensures_rewind, ensures_dropAbove]
    apply (hcall id _).imp
    intro m t ht
    have hlevel := State.level_endSkip hskipping ht.level
    split
    · exact ⟨hlevel, ht.forward.offset_le, ht.inBounds⟩
    · exact ⟨hlevel, Nat.le_refl _, fun hs => hs⟩

theorem Reading.evaluate (hx : Reading text x) (rule : Rule V W) (s : State V W) :
    (evaluate rule s.scanner.position x).Ensures s (Reads text s) fun _ _ => True := by
  simp only [Step.evaluate, ensures_inFrame, ensures_bind, ensures_modifyFrame, ensures_ite,
    ensures_missAt, ensures_get, ensures_matchedSince]
  apply (Staying.popArguments rule _ [] _).imp
  intro values t ht
  apply (hx _).imp
  intro m u hu
  have hread : Reads text s m u := hu.restart ht.1 ht.2
  have hmatched : Reads text s (.hit (u.scanner.offset - s.scanner.offset)) u :=
    hread.forward.matched
  split
  · split
    · split
      · exact hmatched.settle rfl rfl
      · trivial
    · exact hmatched.settle rfl rfl
  · exact hread.forward.missed.settle rfl rfl

theorem Reading.activate (hx : Reading text x) (setting : Setting V W) (rule : Rule V W) :
    Reading text (activate setting rule x) := by
  intro s
  simp only [Step.activate, ensures_bind, ensures_place]
  refine ensures_enter setting rule (fun _ => trivial) (fun log notices => ?_)
    fun _ _ => trivial
  refine ensures_closing setting rule _ (.mono (Reading.evaluate hx rule _) (fun m t ht => ?_)
    fun _ _ _ => ensures_trivial _ _)
  obtain ⟨hdepth, htoken, hskipping⟩ := State.level_eq_iff.1 ht.level
  refine ensures_leave setting rule _ m (fun log notices => ?_) fun _ _ => trivial
  refine ⟨?_, ht.offset, ht.inBounds, ht.position⟩
  simp only [State.level, hdepth, htoken, hskipping, Nat.add_sub_cancel]

end Step

/-! ### Trees and rules -/

theorem evalParser_reading (setting : Setting V W) {call : RuleId → Step V W Match}
    (hcall : ∀ id, Step.Reading setting.source.text (call id)) (p : LinkedParser V W) :
    Step.Reading setting.source.text (evalParser setting call p) := by
  have hgap := Step.Moving.skip setting hcall
  induction p with
  | empty => exact fun s => ⟨rfl, rfl, id, fun _ => rfl⟩
  | anyChar => exact .scanOne setting _
  | atEnd => exact .atEnd setting
  | char c => exact .scanOne setting _
  | literal word => exact .literal setting _
  | oneOf cls => exact .scanOne setting _
  | set chars => exact .scanOne setting _
  | range first last => exact .scanOne setting _
  | keyword word continuation =>
      cases continuation with
      | none => exact .keyword (.seesIdCont setting) _
      | some rule => exact .keyword (.lookAhead (hcall rule.id)) _
  | keywordList selector words ih => exact ih.keywordList words
  | sequence l r ihl ihr => exact .sequence hgap ihl ihr
  | alternative l r ihl ihr => exact .alternative ihl ihr
  | optional body ih => exact ih.optional
  | star body ih => exact .repeated hgap ih 0
  | plus body ih => exact .repeated hgap ih 1
  | difference l r ihl ihr => exact .difference ihl ihr
  | exclusiveOr l r ihl ihr => exact .exclusiveOr ihl ihr
  | intersection l r ihl ihr => exact .intersection ihl ihr
  | list element separator ihe ihs => exact .list hgap ihe ihs
  | grouping body ih => exact ih
  | token body ih => exact ih.inToken
  | expectation body ih => exact ih.expectation _
  | action action body ih => exact ih.action action.run
  | nonterminal rule instanceName args =>
      rw [evalParser]
      split
      · exact (hcall rule.id).nonterminal _ instanceName args
      · exact fun _ => trivial

theorem evalRule_reading (setting : Setting V W) (fuel : Nat) (id : RuleId) :
    Step.Reading setting.source.text (evalRule setting fuel id) := by
  induction fuel generalizing id with
  | zero => exact fun _ => trivial
  | succ fuel ih =>
      rw [evalRule]
      split
      · exact (evalParser_reading setting ih _).activate setting _
      · exact fun _ => trivial

/-- Every tree and every rule, whatever its actions and arguments do, reads what its match tells. A
miss leaves the parse at the place where it stood, a hit moves it by the length reported, and neither
leaves the text; in both cases the numbers of open activations and token groups and the skipping are
as they were. -/
theorem evaluation_reads (setting : Setting V W) (fuel : Nat) (s t : State V W) (m : Match)
    (heval : (∃ p, evalParser setting (evalRule setting fuel) p s = .ok m t) ∨
      ∃ id, evalRule setting fuel id s = .ok m t) :
    (m = .miss → t.scanner.position = s.scanner.position) ∧
    (∀ n, m = .hit n → t.scanner.offset = s.scanner.offset + n) ∧
    (s.scanner.offset ≤ setting.source.text.size →
      t.scanner.offset ≤ setting.source.text.size) ∧
    t.depth = s.depth ∧ t.scanner.tokenDepth = s.scanner.tokenDepth ∧
      t.scanner.skipping = s.scanner.skipping := by
  have hread : Reads setting.source.text s m t := by
    rcases heval with ⟨p, hp⟩ | ⟨id, hid⟩
    · exact (evalParser_reading setting (evalRule_reading setting fuel) p s).of_ok hp
    · exact (evalRule_reading setting fuel id s).of_ok hid
  refine ⟨hread.position, ?_, hread.inBounds, State.level_eq_iff.1 hread.level⟩
  rintro n rfl
  exact hread.offset

/-- A choice that goes back over a first character for its second branch. -/
theorem evaluation_reads_choice :
    let setting : Setting Unit Unit := ⟨#[], ⟨#['a', 'b'], 0, "choice"⟩, none, 0⟩
    let p : LinkedParser Unit Unit := .alternative (.sequence (.char 'a') (.char 'c')) .anyChar
    ∃ t, evalParser setting (evalRule setting 0) p (.start none ()) = .ok (.hit 1) t ∧
      t.scanner.offset = 1 := by
  intro setting p
  refine ⟨_, rfl, ?_⟩
  exact (evaluation_reads setting 0 (.start none ()) _ (.hit 1) (.inl ⟨p, rfl⟩)).2.1 1 rfl

end AttrGrammar.Parse

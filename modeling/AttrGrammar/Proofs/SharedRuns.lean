import AttrGrammar.Proofs.Ensures

/-! Two steps that do the same. They are compared from states that meet a condition on the values, the
frame and the world, which are all that calls and actions have to do with; where they end another
condition holds, one for a hit and one for a miss, and where they break off they do so in one of the
ways that are foreseen. What was done before a miss is not taken back, so the condition for a miss
says as much as the one for a hit. Chains of such steps are such steps, and so is every combination;
loops take an invariant. -/

namespace AttrGrammar.Parse
open Text Scan Peg

variable {V W α β : Type}

/-- How a parse may fail where nothing is missing and there is fuel. -/
inductive Failure.Foreseen (source : Source) (raises : String → Slice → Prop) : Failure → Prop
  | expectation (expected : String) (location : Location) :
    Foreseen source raises (.error (.expectation expected location))
  | exception (reason : String) (start stop : Position)
    (hraises : raises reason (source.textBetween start stop)) :
    Foreseen source raises (.error (.exception reason
      ⟨source.fileName, source.span start stop, source.text⟩))
  | recursionLimitExceeded (rule : String) (maxDepth : Nat) (location : Location) :
    Foreseen source raises (.error (.recursionLimitExceeded rule maxDepth location))
  | inputTooLarge (length maxLength : Nat) :
    Foreseen source raises (.error (.inputTooLarge length maxLength))
  | log : Foreseen source raises (.error .log)

/-- What calls and actions have to do with. -/
structure Store (V W : Type) where
  stack : List V
  frame : Frame V
  world : W

def State.store (s : State V W) : Store V W := ⟨s.stack.values, s.frame, s.world⟩

namespace Step

section

variable (source : Source) (raises : String → Slice → Prop)

/-- Wherever the first condition holds, two steps do the same; where they end the second one holds,
and unless fuel is lacking they break off as foreseen. -/
def Meets (before : Store V W → Prop) (x x' : Step V W α) (after : α → Store V W → Prop) : Prop :=
  ∀ s, before s.store → x' s = x s ∧ x.Ensures s (fun a t => after a t.store)
    fun e _ => e ≠ .outOfFuel → e.Foreseen source raises

/-- One condition for a hit and one for a miss. -/
def ends (onHit onMiss : Store V W → Prop) : Match → Store V W → Prop
  | .hit _ => onHit
  | .miss => onMiss

end

namespace Meets

variable {source : Source} {raises : String → Slice → Prop}
  {P P' Q Q' R R' I : Store V W → Prop} {x x' y y' : Step V W Match} {gap gap' : Step V W Unit}

theorem mono {x x' : Step V W α} {A A' : α → Store V W → Prop} (h : Meets source raises P x x' A)
    (hbefore : ∀ σ, P' σ → P σ) (hafter : ∀ a σ, A a σ → A' a σ) :
    Meets source raises P' x x' A' := fun s hs =>
  ⟨(h s (hbefore _ hs)).1, (h s (hbefore _ hs)).2.imp fun a t => hafter a t.store⟩

theorem imp {onHit onMiss : Store V W → Prop} (h : Meets source raises P x x' (ends Q R))
    (hhit : ∀ σ, Q σ → onHit σ) (hmiss : ∀ σ, R σ → onMiss σ) :
    Meets source raises P x x' (ends onHit onMiss) := by
  refine h.mono (fun _ => id) fun m σ hσ => ?_
  cases m with
  | hit n => exact hhit σ hσ
  | miss => exact hmiss σ hσ

theorem pure {a : α} {A : α → Store V W → Prop} (h : ∀ σ, P σ → A a σ) :
    Meets source raises P (pure a) (pure a) A := fun _ hs => ⟨rfl, h _ hs⟩

theorem hit (n : Nat) : Meets source raises P (Pure.pure (.hit n)) (Pure.pure (.hit n)) (ends P R) :=
  pure fun _ => id

theorem miss : Meets source raises P (Pure.pure .miss) (Pure.pure .miss) (ends R P) :=
  pure fun _ => id

theorem bind {x x' : Step V W α} {f f' : α → Step V W β} {A : α → Store V W → Prop}
    {B : β → Store V W → Prop} (hx : Meets source raises P x x' A)
    (hf : ∀ a, Meets source raises (A a) (f a) (f' a) B) :
    Meets source raises P (x >>= f) (x' >>= f') B := by
  intro s hs
  obtain ⟨heq, hends⟩ := hx s hs
  rw [ensures_bind, bind_apply, bind_apply, heq]
  refine ⟨?_, hends.imp fun a t ht => (hf a t ht).2⟩
  cases hrun : x s with
  | ok a t => exact (hf a t (hends.of_ok hrun)).1
  | error e t => rfl

/-- Going on from a step that hits or misses. -/
theorem bindMatch {x x' : Step V W Match} {f f' : Match → Step V W β} {A : β → Store V W → Prop}
    (hx : Meets source raises P x x' (ends Q R))
    (hhit : ∀ n, Meets source raises Q (f (.hit n)) (f' (.hit n)) A)
    (hmiss : Meets source raises R (f .miss) (f' .miss) A) :
    Meets source raises P (x >>= f) (x' >>= f') A :=
  bind hx fun m => by
    cases m with
    | hit n => exact hhit n
    | miss => exact hmiss

/-- There is no state to start from. -/
theorem absurd {x x' : Step V W α} {A : α → Store V W → Prop} (h : ∀ σ, ¬ P σ) :
    Meets source raises P x x' A := fun s hs => (h s.store hs).elim

theorem look {f f' : State V W → Step V W α} {A : α → Store V W → Prop}
    (h : ∀ s, P s.store → Meets source raises (· = s.store) (f s) (f' s) A) :
    Meets source raises P (get >>= f) (get >>= f') A := fun s hs => h s hs s rfl

/-- A step that does not concern the store. -/
theorem aside {x : Step V W α} (h : ∀ s, x.Ensures s (fun _ t => t.store = s.store)
      fun e _ => e ≠ .outOfFuel → e.Foreseen source raises) :
    Meets source raises P x x fun _ => P := fun s hs =>
  ⟨rfl, (h s).imp fun _ _ ht => by rwa [ht]⟩

theorem place : Meets source raises P Step.place Step.place fun _ => P := fun _ hs => ⟨rfl, hs⟩

theorem offset : Meets source raises P Step.offset Step.offset fun _ => P := fun _ hs => ⟨rfl, hs⟩

theorem scan (f : Scanner → Scanner) : Meets source raises P (Step.scan f) (Step.scan f) fun _ => P :=
  fun _ hs => ⟨rfl, hs⟩

theorem rewind (p : Position) : Meets source raises P (Step.rewind p) (Step.rewind p) fun _ => P :=
  scan _

theorem matchedSince (p : Position) :
    Meets source raises P (Step.matchedSince p) (Step.matchedSince p) (ends P R) :=
  fun _ hs => ⟨rfl, hs⟩

theorem missAt (p : Position) :
    Meets source raises P (Step.missAt p) (Step.missAt p) (ends R P) :=
  fun _ hs => ⟨rfl, hs⟩

/-! ### Characters and words -/

variable {setting : Setting V W}

theorem scanOne (accept : Char → Bool) :
    Meets source raises P (Step.scanOne setting accept) (Step.scanOne setting accept)
      (ends P P) := by
  refine fun s hs => ⟨rfl, ?_⟩
  simp only [Step.scanOne, ensures_bind, ensures_get]
  split
  · split <;> exact hs
  · exact hs

theorem atEnd : Meets source raises P (Step.atEnd setting) (Step.atEnd setting) (ends P P) := by
  refine fun s hs => ⟨rfl, ?_⟩
  simp only [Step.atEnd, ensures_bind, ensures_get, ensures_pure]
  split <;> exact hs

theorem seesWord (word : List Char) :
    Meets source raises P (Step.seesWord setting word) (Step.seesWord setting word) fun _ => P :=
  fun _ hs => ⟨rfl, hs⟩

theorem seesIdCont :
    Meets source raises P (Step.seesIdCont setting) (Step.seesIdCont setting) fun _ => P :=
  fun _ hs => ⟨rfl, hs⟩

theorem literal (word : List Char) :
    Meets source raises P (Step.literal setting word) (Step.literal setting word) (ends P P) := by
  refine bind (seesWord word) fun sees => ?_
  split
  · exact bind (scan _) fun _ => hit _
  · exact miss

theorem keyword (word : List Char) {goesOn goesOn' : Step V W Bool}
    (hgoesOn : Meets source raises P goesOn goesOn' fun _ => P) :
    Meets source raises P (Step.keyword setting word goesOn) (Step.keyword setting word goesOn')
      (ends P P) := by
  refine bind (seesWord word) fun sees => ?_
  split
  · refine bind place fun start => bind (scan _) fun _ => bind hgoesOn fun goes => ?_
    split
    · exact missAt start
    · exact hit _
  · exact miss

theorem keywordList (hx : Meets source raises P x x' (ends Q R)) (hQR : ∀ σ, Q σ → R σ)
    (words : List String) :
    Meets source raises P (Step.keywordList setting x words) (Step.keywordList setting x' words)
      (ends Q R) := by
  refine bind place fun start => bindMatch hx (fun n => ?_) miss
  refine bind place fun stop => ?_
  dsimp only
  split
  · exact hit n
  · exact (missAt (R := Q) start).imp (fun _ => id) hQR

/-! ### Combinators -/

theorem sequence (hx : Meets source raises P x x' (ends Q R))
    (hgap : Meets source raises Q gap gap' fun _ => Q)
    (hy : Meets source raises Q y y' (ends Q' R)) :
    Meets source raises P (Step.sequence gap x y) (Step.sequence gap' x' y') (ends Q' R) := by
  refine bind place fun start => bindMatch hx (fun n => ?_) (missAt start)
  exact bind hgap fun _ => bindMatch hy (fun n => matchedSince start) (missAt start)

theorem alternative (hx : Meets source raises P x x' (ends Q R))
    (hy : Meets source raises R y y' (ends Q R')) :
    Meets source raises P (Step.alternative x y) (Step.alternative x' y') (ends Q R') := by
  refine bind place fun start => bindMatch hx hit ?_
  exact bind (rewind start) fun _ => bindMatch hy hit (missAt start)

theorem optional (hx : Meets source raises P x x' (ends Q Q)) :
    Meets source raises P (Step.optional x) (Step.optional x') (ends Q R) := by
  refine bind place fun start => bindMatch hx hit ?_
  exact bind (rewind start) fun _ => hit 0

theorem difference {A B : Store V W → Prop} (hx : Meets source raises P x x' (ends Q R))
    (hy : Meets source raises Q y y' (ends A B)) (hA : ∀ σ, A σ → Q' σ ∧ R σ)
    (hB : ∀ σ, B σ → Q' σ) :
    Meets source raises P (Step.difference x y) (Step.difference x' y') (ends Q' R) := by
  refine bind place fun start => bindMatch hx (fun n => ?_) miss
  refine bind place fun stop => bind (rewind start) fun _ => bindMatch hy (fun n' => ?_) ?_
  · refine bind offset fun here => ?_
    split
    · exact (missAt (R := A) start).imp (fun σ h => (hA σ h).1) fun σ h => (hA σ h).2
    · exact bind (rewind stop) fun _ => (hit (R := R) n).imp (fun σ h => (hA σ h).1) fun _ => id
  · refine bind offset fun here => bind (rewind stop) fun _ => ?_
    exact (hit (R := R) n).imp hB fun _ => id

theorem exclusiveOr (hx : Meets source raises P x x' (ends Q R))
    (hhit : Meets source raises Q y y' (ends R' Q'))
    (hmiss : Meets source raises R y y' (ends Q' R')) :
    Meets source raises P (Step.exclusiveOr x y) (Step.exclusiveOr x' y') (ends Q' R') := by
  refine bind place fun start => bindMatch hx (fun n => ?_) ?_
  · refine bind place fun stop => bind (rewind start) fun _ => bindMatch hhit (fun n' => ?_) ?_
    · exact missAt start
    · exact bind (rewind stop) fun _ => hit n
  · refine bind place fun stop => bind (rewind start) fun _ => bindMatch hmiss (fun n' => ?_) ?_
    · exact hit n'
    · exact missAt start

theorem intersection (hx : Meets source raises P x x' (ends Q R))
    (hy : Meets source raises Q y y' (ends Q' R)) (hQR : ∀ σ, Q' σ → R σ) :
    Meets source raises P (Step.intersection x y) (Step.intersection x' y') (ends Q' R) := by
  refine bind place fun start => bindMatch hx (fun n => ?_) miss
  refine bind offset fun stop => bind (rewind start) fun _ => bindMatch hy (fun n' => ?_) ?_
  · refine bind offset fun here => ?_
    split
    · exact hit n
    · exact (missAt (R := Q') start).imp (fun _ => id) hQR
  · exact bind offset fun here => missAt start

theorem expectation (hx : Meets source raises P x x' (ends Q R)) (expected : String) :
    Meets source raises P
      (Step.orElse x fun start => Step.failExpectingHere setting expected start)
      (Step.orElse x' fun start => Step.failExpectingHere setting expected start)
      (ends Q R') := by
  refine bind place fun start => bindMatch hx hit ?_
  exact fun s _ => ⟨rfl, fun _ => .expectation _ _⟩

theorem action {run run' : ActionContext V W → ActionContext V W}
    (hx : Meets source raises P x x' (ends Q R))
    (hact : ∀ start n, Meets source raises Q (Step.act setting run start (.hit n))
      (Step.act setting run' start (.hit n)) (ends Q' R)) :
    Meets source raises P (Step.action setting run x) (Step.action setting run' x') (ends Q' R) :=
  bind place fun start => bindMatch hx (hact start) miss

theorem inToken (hx : Meets source raises P x x' (ends Q R)) :
    Meets source raises P (Step.inToken x) (Step.inToken x') (ends Q R) := by
  intro s hs
  obtain ⟨heq, hends⟩ := hx { s with scanner := s.scanner.beginToken } hs
  rw [Step.inToken, Step.inToken, ensures_between]
  refine ⟨?_, hends⟩
  unfold Step.between
  rw [heq]

/-! ### Loops -/

theorem exhausted {A : α → Store V W → Prop} :
    Meets source raises P (Step.exhausted : Step V W α) Step.exhausted A :=
  fun _ _ => ⟨rfl, fun hfuel => (hfuel rfl).elim⟩

theorem skipBefore (hgap : Meets source raises I gap gap' fun _ => I) (count : Nat) :
    Meets source raises I (Step.skipBefore gap count) (Step.skipBefore gap' count) fun _ => I := by
  unfold Step.skipBefore
  split
  · exact hgap
  · exact pure fun _ => id

theorem repeatMany (hgap : Meets source raises I gap gap' fun _ => I)
    (hx : Meets source raises I x x' (ends I I)) (fuel count : Nat) :
    Meets source raises I (Step.repeatMany gap x fuel count) (Step.repeatMany gap' x' fuel count)
      fun _ => I := by
  induction fuel generalizing count with
  | zero => exact exhausted
  | succ fuel ih =>
      refine bind place fun round => bind (skipBefore hgap count) fun _ => bind offset fun before =>
        bindMatch hx (fun n => ?_) ?_
      · refine bind offset fun here => ?_
        split
        · exact bind (rewind round) fun _ => pure fun _ => id
        · exact ih (count + 1)
      · exact bind offset fun here => bind (rewind round) fun _ => pure fun _ => id

theorem repeated (hgap : Meets source raises I gap gap' fun _ => I)
    (hx : Meets source raises I x x' (ends I I)) (least : Nat) :
    Meets source raises I (Step.repeated setting gap x least)
      (Step.repeated setting gap' x' least) (ends I I) := by
  refine bind place fun start => bind (repeatMany hgap hx _ 0) fun count => ?_
  split
  · exact missAt start
  · exact matchedSince start

/-- A repetition that may be empty never misses. -/
theorem star (hgap : Meets source raises I gap gap' fun _ => I)
    (hx : Meets source raises I x x' (ends I I)) :
    Meets source raises I (Step.repeated setting gap x 0) (Step.repeated setting gap' x' 0)
      (ends I R) := by
  refine bind place fun start => bind (repeatMany hgap hx _ 0) fun count => ?_
  rw [if_neg (Nat.not_lt_zero count)]
  exact matchedSince start

theorem listTail (hgap : Meets source raises I gap gap' fun _ => I)
    (hx : Meets source raises I x x' (ends I I)) (hy : Meets source raises I y y' (ends I I))
    (fuel : Nat) : Meets source raises I (Step.listTail gap x y fuel)
      (Step.listTail gap' x' y' fuel) fun _ => I := by
  induction fuel with
  | zero => exact exhausted
  | succ fuel ih =>
      refine bind place fun round => bind hgap fun _ => bindMatch hy (fun n => ?_) (rewind round)
      refine bind hgap fun _ => bindMatch hx (fun n' => ?_) (rewind round)
      refine bind offset fun here => ?_
      split
      · exact pure fun _ => id
      · exact ih

theorem list (hgap : Meets source raises I gap gap' fun _ => I)
    (hx : Meets source raises I x x' (ends I I)) (hy : Meets source raises I y y' (ends I I)) :
    Meets source raises I (Step.list setting gap x y) (Step.list setting gap' x' y') (ends I I) := by
  refine bind place fun start => bindMatch hx (fun n => ?_) miss
  exact bind (listTail hgap hx hy _) fun _ => matchedSince start

/-! ### The stack and the frame -/

/-- What holds whatever the store is may be assumed. -/
theorem assuming {x x' : Step V W α} {A : α → Store V W → Prop} {p : Prop}
    (h : p → Meets source raises P x x' A) : Meets source raises (fun σ => P σ ∧ p) x x' A :=
  fun s hs => h hs.2 s hs.1

theorem push (v : V) (h : ∀ σ, P σ → Q { σ with stack := v :: σ.stack }) :
    Meets source raises P (Step.push v) (Step.push v) fun _ => Q := fun s hs => ⟨rfl, h s.store hs⟩

/-- Taking a value from the stack, where there is one. -/
theorem pop (rule : Rule V W) {A : V → Store V W → Prop}
    (h : ∀ σ, P σ → ∃ v rest, σ.stack = v :: rest ∧ A v { σ with stack := rest }) :
    Meets source raises P (Step.pop rule) (Step.pop rule) A := by
  intro s hs
  obtain ⟨v, rest, hstack, hafter⟩ := h s.store hs
  refine ⟨rfl, ensures_pop rule (fun v' rest' hv => ?_) fun hnil => ?_⟩
  · obtain ⟨rfl, rfl⟩ := List.cons.inj (hv.symm.trans hstack)
    exact hafter
  · cases hnil.symm.trans hstack

theorem modifyFrame (f : Frame V → Frame V) (h : ∀ σ, P σ → Q { σ with frame := f σ.frame }) :
    Meets source raises P (Step.modifyFrame f) (Step.modifyFrame f) fun _ => Q :=
  fun s hs => ⟨rfl, h s.store hs⟩

theorem height : Meets source raises P Step.height Step.height
    fun n σ => P σ ∧ n = σ.stack.length := fun _ hs => ⟨rfl, hs, rfl⟩

theorem dropAbove (n : Nat)
    (h : ∀ σ, P σ → Q { σ with stack := σ.stack.drop (σ.stack.length - n) }) :
    Meets source raises P (Step.dropAbove n) (Step.dropAbove n) fun _ => Q :=
  fun s hs => ⟨rfl, h s.store hs⟩

theorem inSkip (hx : Meets source raises P x x' (ends Q R)) :
    Meets source raises P (Step.inSkip x) (Step.inSkip x') (ends Q R) := by
  intro s hs
  obtain ⟨heq, hends⟩ := hx { s with scanner := s.scanner.beginSkip } hs
  rw [Step.inSkip, Step.inSkip, ensures_between]
  refine ⟨?_, hends⟩
  unfold Step.between
  rw [heq]

/-- A step with a frame of its own. The frame of the caller is in place again behind it. -/
theorem inFrame {frame caller : Frame V} {x x' : Step V W α} {A : α → Store V W → Prop}
    (hx : Meets source raises P x x' A) (hbefore : ∀ σ, P' σ → P { σ with frame } ∧ σ.frame = caller) :
    Meets source raises P' (Step.inFrame frame x) (Step.inFrame frame x')
      fun a σ => σ.frame = caller ∧ ∃ inner, A a { σ with frame := inner } := by
  intro s hs
  obtain ⟨hinner, hcaller⟩ := hbefore s.store hs
  obtain ⟨heq, hends⟩ := hx { s with frame } hinner
  rw [ensures_inFrame]
  refine ⟨?_, hends.imp fun a t ht => ⟨hcaller, t.frame, ht⟩⟩
  unfold Step.inFrame Step.between
  rw [heq]

/-! ### Activations -/

theorem enter (rule : Rule V W) :
    Meets source raises P (Step.enter setting rule) (Step.enter setting rule) fun _ => P :=
  aside fun _ => ensures_enter setting rule (fun _ _ => .recursionLimitExceeded _ _ _)
    (fun _ _ => rfl) fun _ _ _ => .log

theorem closing (rule : Rule V W) (start : Position) {A : Match → Store V W → Prop}
    (hx : Meets source raises P x x' A) :
    Meets source raises P (Step.closing setting rule start x) (Step.closing setting rule start x')
      A := by
  intro s hs
  obtain ⟨heq, hends⟩ := hx s hs
  refine ⟨?_, ensures_closing setting rule start (hends.mono (fun m t ht => ?_) fun e t he => ?_)⟩
  · unfold Step.closing
    rw [heq]
  · exact ensures_leave setting rule start m (fun _ _ => ht) fun _ _ _ => .log
  · exact ensures_leave setting rule start .miss (fun _ _ => he) fun _ _ => he

theorem activate (rule : Rule V W) {A : Match → Store V W → Prop}
    (hx : ∀ start, Meets source raises P (Step.evaluate rule start x)
      (Step.evaluate rule start x') A) :
    Meets source raises P (Step.activate setting rule x) (Step.activate setting rule x') A :=
  bind (enter rule) fun _ => bind place fun start => closing rule start (hx start)

end Meets

end Step

end AttrGrammar.Parse

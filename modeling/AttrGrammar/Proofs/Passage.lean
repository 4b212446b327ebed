import AttrGrammar.Proofs.Linking
import AttrGrammar.Proofs.Reading

/-! What holds between the state in which a step starts and any state in which it ends or breaks
off. Where a relation of this kind is kept by the basic changes of a state, and by one run behind
another, it holds of every tree whose calls and actions keep it. Unlike a statement about hits and
misses, it also tells what is left behind where an error or a lack of fuel has ended a run in the
middle. -/

namespace AttrGrammar.Peg

variable {V ρ α : Type}

/-- A tree and all the trees that it is built from. -/
def Parser.parts (p : Parser V ρ α) : List (Parser V ρ α) :=
  p :: match p with
    | keywordList body _ | optional body | star body | plus body | grouping body | token body
    | expectation body | action _ body => body.parts
    | sequence l r | alternative l r | difference l r | exclusiveOr l r | intersection l r
    | list l r => l.parts ++ r.parts
    | _ => []

theorem Parser.self_mem_parts (p : Parser V ρ α) : p ∈ p.parts := by
  unfold parts
  exact List.mem_cons_self

end AttrGrammar.Peg

namespace AttrGrammar.Parse
open Text Scan Peg

variable {V W α β : Type}

/-- The state with the cursor put back to a place. -/
def State.backAt (s : State V W) (place : Position) : State V W :=
  { s with scanner := s.scanner.mapCursor (·.restore place) }

/-- What an action sees that runs on everything read since a place. -/
def State.actionContext (setting : Setting V W) (start : Position) (s : State V W) :
    ActionContext V W :=
  { frame := s.frame, text := setting.source.textBetween start s.scanner.position,
    span := setting.source.span start s.scanner.position, fileName := setting.source.fileName,
    pass := true, error := none, world := s.world }

/-- The state behind an action. -/
def State.acted (s : State V W) (done : ActionContext V W) : State V W :=
  { s with frame := done.frame, world := done.world }

namespace Step

/-- The step keeps the relation `Way` between where it starts and where it ends, or breaks off with
a failure. -/
def Along (Way : State V W → Option Failure → State V W → Prop) (x : Step V W α) : Prop :=
  ∀ s, x.Ensures s (fun _ t => Way s none t) fun e t => Way s (some e) t

/-- The relation is kept by an action, whether or not it raises an error. -/
structure ActsAlong (setting : Setting V W) (Way : State V W → Option Failure → State V W → Prop)
    (run : ActionContext V W → ActionContext V W) : Prop where
  done : ∀ {s t}, Way s none t → s.scanner.offset ≤ t.scanner.offset →
    Way s none (t.acted (run (t.actionContext setting s.scanner.position)))
  raised : ∀ {s t reason}, Way s none t → s.scanner.offset ≤ t.scanner.offset →
    (run (t.actionContext setting s.scanner.position)).error = some reason →
    Way s (some (.error (.exception reason
        (setting.location (setting.source.span s.scanner.position t.scanner.position)))))
      (t.acted (run (t.actionContext setting s.scanner.position)))

/-- A relation that the basic changes of a state keep. `Way s none t` holds between the start and
the end of a run, `Way s (some e) t` where the run broke off with `e`. -/
structure Passage (setting : Setting V W)
    (Way : State V W → Option Failure → State V W → Prop) : Prop where
  refl : ∀ s, Way s none s
  trans : ∀ {s t u r}, Way s none t → Way t r u → Way s r u
  exhausted : ∀ s, Way s (some .outOfFuel) s
  fail : ∀ s e, e.location? = none → Way s (some (.error e)) s
  unexpected : ∀ {s t} expected, Way s none t → t.scanner.position = s.scanner.position →
    Way s (some (.error (.expectation expected
      (setting.location (setting.source.span s.scanner.position t.scanner.position))))) t
  advance : ∀ s, Way s none
    { s with scanner := s.scanner.mapCursor (·.advance setting.source.text) }
  rewound : ∀ {s t}, Way s none t → Way s none (t.backAt s.scanner.position)
  /-- A second attempt from the start, after which the end of the first one counts. -/
  recross : ∀ {s t u}, Way s none t → Way (t.backAt s.scanner.position) none u →
    Way s none (u.backAt t.scanner.position)
  inToken : ∀ {s t r}, Way { s with scanner := s.scanner.beginToken } r t →
    Way s r { t with scanner := t.scanner.endToken }
  stack : ∀ {s t r} stack, Way s r t → Way s r { t with stack }

namespace Passage

variable {setting : Setting V W} {Way : State V W → Option Failure → State V W → Prop}
  {x y : Step V W Match} {gap : Step V W Unit} {s t : State V W}

/-- A step that follows on a run. -/
theorem onward (h : Passage setting Way) {z : Step V W α} (hz : Along Way z)
    (hst : Way s none t) : z.Ensures t (fun _ u => Way s none u) fun e u => Way s (some e) u :=
  (hz t).mono (fun _ _ => h.trans hst) fun _ _ => h.trans hst

theorem pure (h : Passage setting Way) (a : α) : Along Way (pure a : Step V W α) :=
  fun s => h.refl s

theorem bind (h : Passage setting Way) {z : Step V W α} {f : α → Step V W β} (hz : Along Way z)
    (hf : ∀ a, Along Way (f a)) : Along Way (z >>= f) := by
  intro s
  rw [ensures_bind]
  exact (hz s).imp fun a t ht => h.onward (hf a) ht

theorem failing (h : Passage setting Way) {e : ParseError} (he : e.location? = none) :
    Along Way (Step.fail e : Step V W α) := fun s => h.fail s e he

/-! ### Characters and words -/

theorem advanceBy (h : Passage setting Way) (n : Nat) (s : State V W) :
    Way s none { s with scanner := s.scanner.mapCursor (·.advanceBy setting.source.text n) } := by
  induction n generalizing s with
  | zero => exact h.refl s
  | succ n ih =>
      simp only [Cursor.advanceBy, Scanner.mapCursor]
      split
      · exact h.refl s
      · exact h.trans (h.advance s) (ih _)

theorem scanOne (h : Passage setting Way) (accept : Char → Bool) :
    Along Way (scanOne setting accept) := by
  intro s
  simp only [Step.scanOne, ensures_bind, ensures_get]
  split
  · simp only [ensures_ite, ensures_bind, ensures_scan, ensures_pure]
    split
    · exact h.advance s
    · exact h.refl s
  · exact h.refl s

theorem atEnd (h : Passage setting Way) : Along Way (Step.atEnd setting) := fun s => h.refl s

theorem seesIdCont (h : Passage setting Way) : Along Way (Step.seesIdCont setting) :=
  fun s => h.refl s

theorem literal (h : Passage setting Way) (word : List Char) :
    Along Way (literal setting word) := by
  intro s
  simp only [Step.literal, seesWord, ensures_bind, ensures_get, ensures_pure, ensures_ite,
    ensures_scan]
  split
  · exact h.advanceBy _ s
  · exact h.refl s

theorem keyword (h : Passage setting Way) {goesOn : Step V W Bool} (hgoesOn : Along Way goesOn)
    (word : List Char) : Along Way (keyword setting word goesOn) := by
  intro s
  simp only [Step.keyword, seesWord, ensures_bind, ensures_get, ensures_pure, ensures_ite,
    ensures_place, ensures_scan, ensures_missAt]
  split
  · apply (h.onward hgoesOn (h.advanceBy word.length s)).imp
    intro goes t ht
    split
    · exact h.rewound ht
    · exact ht
  · exact h.refl s

theorem lookAhead (h : Passage setting Way) (hx : Along Way x) : Along Way (lookAhead x) := by
  intro s
  simp only [Step.lookAhead, ensures_bind, ensures_place, ensures_height, ensures_dropAbove,
    ensures_rewind, ensures_pure]
  exact (hx s).imp fun m t ht => h.stack _ (h.rewound ht)

theorem keywordList (h : Passage setting Way) (hx : Along Way x) (words : List String) :
    Along Way (keywordList setting x words) := by
  intro s
  simp only [Step.keywordList, ensures_bind, ensures_place, ensures_ite, ensures_pure,
    ensures_missAt]
  apply (hx s).imp
  intro m t ht
  split
  · split
    · exact ht
    · exact h.rewound ht
  · exact ht

/-! ### Sequences, alternatives and loops -/

theorem sequence (h : Passage setting Way) (hgap : Along Way gap) (hx : Along Way x)
    (hy : Along Way y) : Along Way (sequence gap x y) := by
  intro s
  simp only [Step.sequence, ensures_bind, ensures_place, ensures_ite, ensures_matchedSince,
    ensures_missAt]
  apply (hx s).imp
  intro m t ht
  split
  · apply (h.onward hgap ht).imp
    intro _ u hu
    apply (h.onward hy hu).imp
    intro m' v hv
    split
    · exact hv
    · exact h.rewound hv
  · exact h.rewound ht

theorem alternative (h : Passage setting Way) (hx : Along Way x) (hy : Along Way y) :
    Along Way (alternative x y) := by
  intro s
  simp only [Step.alternative, ensures_bind, ensures_place, ensures_ite, ensures_pure,
    ensures_rewind, ensures_missAt]
  apply (hx s).imp
  intro m t ht
  split
  · exact ht
  · apply (h.onward hy (h.rewound ht)).imp
    intro m' u hu
    split
    · exact hu
    · exact h.rewound hu

theorem optional (h : Passage setting Way) (hx : Along Way x) : Along Way (optional x) := by
  intro s
  simp only [Step.optional, ensures_bind, ensures_place, ensures_ite, ensures_pure, ensures_rewind]
  apply (hx s).imp
  intro m t ht
  split
  · exact ht
  · exact h.rewound ht

theorem skipBefore (h : Passage setting Way) (hgap : Along Way gap) (count : Nat) :
    Along Way (skipBefore gap count) := by
  unfold Step.skipBefore
  split
  · exact hgap
  · exact h.pure ()

theorem repeatMany (h : Passage setting Way) (hgap : Along Way gap) (hx : Along Way x)
    (fuel count : Nat) : Along Way (repeatMany gap x fuel count) := by
  induction fuel generalizing count with
  | zero => exact h.exhausted
  | succ fuel ih =>
      intro s
      simp only [Step.repeatMany, ensures_bind, ensures_place, ensures_offset, ensures_ite,
        ensures_rewind, ensures_pure]
      apply (h.skipBefore hgap count s).imp
      intro _ t ht
      apply (h.onward hx ht).imp
      intro m u hu
      split
      · exact h.rewound hu
      · exact h.onward (ih (count + 1)) hu

theorem repeated (h : Passage setting Way) (hgap : Along Way gap) (hx : Along Way x) (least : Nat) :
    Along Way (repeated setting gap x least) := by
  intro s
  simp only [Step.repeated, ensures_bind, ensures_place, ensures_ite, ensures_missAt,
    ensures_matchedSince]
  apply (h.repeatMany hgap hx _ 0 s).imp
  intro count t ht
  split
  · exact h.rewound ht
  · exact ht

theorem listTail (h : Passage setting Way) (hgap : Along Way gap) (hx : Along Way x)
    (hy : Along Way y) (fuel : Nat) : Along Way (listTail gap x y fuel) := by
  induction fuel with
  | zero => exact h.exhausted
  | succ fuel ih =>
      intro s
      simp only [Step.listTail, ensures_bind, ensures_place, ensures_offset, ensures_ite,
        ensures_rewind, ensures_pure]
      apply (hgap s).imp
      intro _ t ht
      apply (h.onward hy ht).imp
      intro m u hu
      split
      · apply (h.onward hgap hu).imp
        intro _ v hv
        apply (h.onward hx hv).imp
        intro m' w hw
        split
        · split
          · exact hw
          · exact h.onward ih hw
        · exact h.rewound hw
      · exact h.rewound hu

theorem list (h : Passage setting Way) (hgap : Along Way gap) (hx : Along Way x)
    (hy : Along Way y) : Along Way (list setting gap x y) := by
  intro s
  simp only [Step.list, ensures_bind, ensures_place, ensures_ite, ensures_pure,
    ensures_matchedSince]
  apply (hx s).imp
  intro m t ht
  split
  · exact h.onward (h.listTail hgap hx hy _) ht
  · exact ht

/-! ### Two attempts at one place -/

theorem difference (h : Passage setting Way) (hx : Along Way x) (hy : Along Way y) :
    Along Way (difference x y) := by
  intro s
  simp only [Step.difference, ensures_bind, ensures_place, ensures_ite, ensures_pure,
    ensures_rewind, ensures_offset, ensures_missAt]
  apply (hx s).imp
  intro m t ht
  split
  · refine (hy (t.backAt s.scanner.position)).mono (fun m' u hu => ?_) fun e u hu =>
      h.trans (h.rewound ht) hu
    split
    · exact h.rewound (h.trans (h.rewound ht) hu)
    · exact h.recross ht hu
  · exact ht

theorem exclusiveOr (h : Passage setting Way) (hx : Along Way x) (hy : Along Way y) :
    Along Way (exclusiveOr x y) := by
  intro s
  simp only [Step.exclusiveOr, ensures_bind, ensures_place, ensures_rewind]
  apply (hx s).imp
  intro m t ht
  refine (hy (t.backAt s.scanner.position)).mono (fun m' u hu => ?_) fun e u hu =>
    h.trans (h.rewound ht) hu
  have hboth : Way s none u := h.trans (h.rewound ht) hu
  split
  · exact h.recross ht hu
  · exact hboth
  · exact h.rewound hboth

theorem intersection (h : Passage setting Way) (hx : Along Way x) (hy : Along Way y) :
    Along Way (intersection x y) := by
  intro s
  simp only [Step.intersection, ensures_bind, ensures_place, ensures_ite, ensures_pure,
    ensures_rewind, ensures_offset, ensures_missAt]
  apply (hx s).imp
  intro m t ht
  split
  · apply (h.onward hy (h.rewound ht)).imp
    intro m' u hu
    split
    · exact hu
    · exact h.rewound hu
  · exact ht

/-! ### Tokens, expectations and actions -/

theorem token (h : Passage setting Way) (hx : Along Way x) : Along Way (Step.inToken x) := by
  intro s
  rw [Step.inToken, ensures_between]
  exact (hx _).mono (fun _ _ => h.inToken) fun _ _ => h.inToken

theorem expectation (h : Passage setting Way) (hx : Along Way x)
    (hread : Reading setting.source.text x) (expected : String) :
    Along Way (orElse x fun start => failExpectingHere setting expected start) := by
  intro s
  simp only [orElse, failExpectingHere, failExpecting, ensures_bind, ensures_place, ensures_ite,
    ensures_pure, ensures_fail]
  refine ((hx s).and (hread s)).mono (fun m t ht => ?_) fun e t he => he.1
  split
  · exact ht.1
  · next hmiss =>
    obtain rfl : m = .miss := by cases m with
      | miss => rfl
      | hit n => exact absurd rfl hmiss
    exact h.unexpected expected ht.1 (ht.2.position rfl)

theorem action (h : Passage setting Way) (hx : Along Way x) (hread : Reading setting.source.text x)
    {run : ActionContext V W → ActionContext V W} (hrun : ActsAlong setting Way run) :
    Along Way (action setting run x) := by
  intro s
  simp only [Step.action, act, ensures_bind, ensures_place, ensures_ite, ensures_pure,
    ensures_modifyGet]
  refine ((hx s).and (hread s)).mono (fun m t ht => ?_) fun e t he => he.1
  have hle : s.scanner.offset ≤ t.scanner.offset := ht.2.forward.offset_le
  have hdone := hrun.done ht.1 hle
  split
  · split
    · next reason hreason => exact hrun.raised ht.1 hle hreason
    · simp only [ensures_ite, ensures_pure, ensures_missAt]
      split
      · exact hdone
      · exact h.rewound hdone
  · exact ht.1

/-! ### Arguments and values -/

theorem push (h : Passage setting Way) (v : V) : Along Way (Step.push v) :=
  fun s => h.stack _ (h.refl s)

theorem pop (h : Passage setting Way) (rule : Rule V W) : Along Way (Step.pop rule) :=
  fun s => ensures_pop rule (fun _ _ _ => h.stack _ (h.refl s)) fun _ =>
    h.trans (h.stack _ (h.refl s)) (h.fail _ _ rfl)

theorem pushArguments (h : Passage setting Way) (rule : Rule V W) (index : Nat)
    (args : List (Argument V)) : Along Way (Step.pushArguments rule index args) := by
  induction args generalizing index with
  | nil => exact h.pure ()
  | cons argument rest ih =>
      intro s
      simp only [Step.pushArguments, ensures_bind, ensures_get]
      split
      · exact h.bind (h.push _) (fun _ => ih (index + 1)) s
      · exact h.fail _ _ rfl

theorem popArguments (h : Passage setting Way) (rule : Rule V W) (n : Nat) (taken : List V) :
    Along Way (Step.popArguments rule n taken) := by
  induction n generalizing taken with
  | zero => exact h.pure _
  | succ n ih => exact h.bind (h.pop rule) fun v => ih (v :: taken)

/-! ### Trees -/

/-- What a relation has to hold of at the places of a tree where rules and actions come in. -/
structure PartsAlong (setting : Setting V W) (call : RuleId → Step V W Match)
    (Way : State V W → Option Failure → State V W → Prop) (p : LinkedParser V W) : Prop where
  keyword : ∀ word rule, .keyword word (some rule) ∈ p.parts →
    Along Way (Step.lookAhead (call rule.id))
  call : ∀ rule instanceName args, .nonterminal rule instanceName args ∈ p.parts →
    Along Way (Parse.evalParser setting call (.nonterminal rule instanceName args))
  act : ∀ a body, .action a body ∈ p.parts → ActsAlong setting Way a.run

variable {call : RuleId → Step V W Match} {p l r : LinkedParser V W}

theorem PartsAlong.of_subset (hp : PartsAlong setting call Way p) (hl : l.parts ⊆ p.parts) :
    PartsAlong setting call Way l :=
  ⟨fun word rule hmem => hp.keyword word rule (hl hmem),
    fun rule instanceName args hmem => hp.call rule instanceName args (hl hmem),
    fun a body hmem => hp.act a body (hl hmem)⟩

theorem PartsAlong.body (hp : PartsAlong setting call Way p) (hparts : p.parts = p :: l.parts) :
    PartsAlong setting call Way l :=
  hp.of_subset (hparts ▸ List.subset_cons_self _ _)

theorem PartsAlong.left (hp : PartsAlong setting call Way p)
    (hparts : p.parts = p :: (l.parts ++ r.parts)) : PartsAlong setting call Way l :=
  hp.of_subset (hparts ▸ List.subset_cons_of_subset _ (List.subset_append_left _ _))

theorem PartsAlong.right (hp : PartsAlong setting call Way p)
    (hparts : p.parts = p :: (l.parts ++ r.parts)) : PartsAlong setting call Way r :=
  hp.of_subset (hparts ▸ List.subset_cons_of_subset _ (List.subset_append_right _ _))

/-- A relation that calls, actions and the skip keep holds of a tree. -/
theorem evalParser (h : Passage setting Way)
    (hread : ∀ id, Reading setting.source.text (call id)) (hskip : Along Way (skip setting call))
    (hp : PartsAlong setting call Way p) : Along Way (Parse.evalParser setting call p) := by
  have hreading := evalParser_reading setting hread
  induction p with
  | empty => exact h.pure _
  | anyChar => exact h.scanOne _
  | atEnd => exact h.atEnd
  | char c => exact h.scanOne _
  | literal word => exact h.literal _
  | oneOf cls => exact h.scanOne _
  | set chars => exact h.scanOne _
  | range first last => exact h.scanOne _
  | keyword word continuation =>
      cases continuation with
      | none => exact h.keyword h.seesIdCont _
      | some rule => exact h.keyword (hp.keyword word rule (Parser.self_mem_parts _)) _
  | keywordList selector words ih => exact h.keywordList (ih (hp.body rfl)) words
  | sequence l r ihl ihr => exact h.sequence hskip (ihl (hp.left rfl)) (ihr (hp.right rfl))
  | alternative l r ihl ihr => exact h.alternative (ihl (hp.left rfl)) (ihr (hp.right rfl))
  | optional body ih => exact h.optional (ih (hp.body rfl))
  | star body ih => exact h.repeated hskip (ih (hp.body rfl)) 0
  | plus body ih => exact h.repeated hskip (ih (hp.body rfl)) 1
  | difference l r ihl ihr => exact h.difference (ihl (hp.left rfl)) (ihr (hp.right rfl))
  | exclusiveOr l r ihl ihr => exact h.exclusiveOr (ihl (hp.left rfl)) (ihr (hp.right rfl))
  | intersection l r ihl ihr => exact h.intersection (ihl (hp.left rfl)) (ihr (hp.right rfl))
  | list element separator ihe ihs =>
      exact h.list hskip (ihe (hp.left rfl)) (ihs (hp.right rfl))
  | grouping body ih => exact ih (hp.body rfl)
  | token body ih => exact h.token (ih (hp.body rfl))
  | expectation body ih => exact h.expectation (ih (hp.body rfl)) (hreading body) _
  | action action body ih =>
      exact h.action (ih (hp.body rfl)) (hreading body)
        (hp.act action body (Parser.self_mem_parts _))
  | nonterminal rule instanceName args => exact hp.call _ _ _ (Parser.self_mem_parts _)

end Passage

end Step

end AttrGrammar.Parse

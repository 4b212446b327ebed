import AttrGrammar.Proofs.Linking
import AttrGrammar.Parse.Eval


/-! Relations between two evaluations of one tree. Whatever relates the basic steps to themselves and
is kept when steps are chained relates the evaluations of every tree, provided it relates what they
do at the places where rules come in: the skipping, the look-ahead behind keywords, and the calls.
The two evaluations may call rules in different ways and stand in different settings, as long as
they read the same source. Some relations hold only as long as the parse stands inside the text, and
some do not hold where both sides give up; these are kept by all but the loops, which have to be
related by other means. -/

namespace AttrGrammar.Parse
open Text Scan Peg

variable {V W α β : Type}

namespace Step

/-- A function of the state that looks at the cursor alone. -/
def OfCursor (f : State V W → β) : Prop :=
  ∀ s t, s.scanner.cursor = t.scanner.cursor → f s = f t

/-- A relation that the basic steps keep as long as they go to places that `At` holds of. -/
structure CongruenceOn (At : Position → Prop) (setting setting' : Setting V W)
    (R : (α : Type) → Step V W α → Step V W α → Prop) : Prop where
  source : setting'.source = setting.source
  pure : ∀ {α : Type} (a : α), R α (pure a) (pure a)
  bind : ∀ {α β : Type} {x x' : Step V W α} {f f' : α → Step V W β},
    R α x x' → (∀ a, R β (f a) (f' a)) → R β (x >>= f) (x' >>= f')
  look : ∀ {α : Type} {f : State V W → Step V W α},
    OfCursor f → (∀ s, R α (f s) (f s)) → R α (get >>= f) (get >>= f)
  atPlace : ∀ {α : Type} {f f' : Position → Step V W α},
    (∀ p, At p → R α (f p) (f' p)) → R α (place >>= f) (place >>= f')
  advance : R Unit (scan (.mapCursor (·.advance setting.source.text)))
    (scan (.mapCursor (·.advance setting.source.text)))
  advanceBy : ∀ n : Nat, R Unit (scan (.mapCursor (·.advanceBy setting.source.text n)))
    (scan (.mapCursor (·.advanceBy setting.source.text n)))
  rewind : ∀ p, At p → R Unit (rewind p) (rewind p)
  inToken : ∀ {x x' : Step V W Match}, R Match x x' → R Match (inToken x) (inToken x')
  failExpecting : ∀ {α : Type} (expected : String) (first last : Position),
    R α (failExpecting setting expected first last) (failExpecting setting' expected first last)
  act : ∀ (run : ActionContext V W → ActionContext V W) (start : Position) (m : Match),
    At start → R Match (act setting run start m) (act setting' run start m)

namespace CongruenceOn

variable {At : Position → Prop} {setting setting' : Setting V W}
  {R : (α : Type) → Step V W α → Step V W α → Prop} {x x' y y' : Step V W Match}
  {gap gap' : Step V W Unit} {start : Position}

/-! ### Places -/

theorem offset (h : CongruenceOn At setting setting' R) : R Nat offset offset := by
  unfold Step.offset
  exact h.look (fun s t hst => by simp only [Scanner.offset, hst]) fun _ => h.pure _

theorem matchedSince (h : CongruenceOn At setting setting' R) (start : Position) :
    R Match (matchedSince start) (matchedSince start) :=
  h.bind h.offset fun _ => h.pure _

theorem missAt (h : CongruenceOn At setting setting' R) (hstart : At start) :
    R Match (missAt start) (missAt start) :=
  h.bind (h.rewind start hstart) fun _ => h.pure _

/-! ### Characters and words -/

theorem scanOne (h : CongruenceOn At setting setting' R) (accept : Char → Bool) :
    R Match (scanOne setting accept) (scanOne setting' accept) := by
  unfold Step.scanOne
  rw [h.source]
  apply h.look (fun s t hst => by simp only [hst])
  intro s
  split
  · split
    · exact h.bind h.advance fun _ => h.pure _
    · exact h.pure _
  · exact h.pure _

theorem atEnd (h : CongruenceOn At setting setting' R) :
    R Match (atEnd setting) (atEnd setting') := by
  unfold Step.atEnd
  rw [h.source]
  exact h.look (fun s t hst => by simp only [hst]) fun _ => h.pure _

theorem seesWord (h : CongruenceOn At setting setting' R) (word : List Char) :
    R Bool (seesWord setting word) (seesWord setting' word) := by
  unfold Step.seesWord
  rw [h.source]
  exact h.look (fun s t hst => by simp only [hst]) fun _ => h.pure _

theorem seesIdCont (h : CongruenceOn At setting setting' R) :
    R Bool (seesIdCont setting) (seesIdCont setting') := by
  unfold Step.seesIdCont
  rw [h.source]
  exact h.look (fun s t hst => by simp only [hst]) fun _ => h.pure _

theorem literal (h : CongruenceOn At setting setting' R) (word : List Char) :
    R Match (literal setting word) (literal setting' word) := by
  unfold Step.literal
  rw [h.source]
  apply h.bind (h.seesWord word)
  intro sees
  split
  · exact h.bind (h.advanceBy _) fun _ => h.pure _
  · exact h.pure _

theorem keyword (h : CongruenceOn At setting setting' R) (word : List Char)
    {goesOn goesOn' : Step V W Bool} (hgoesOn : R Bool goesOn goesOn') :
    R Match (keyword setting word goesOn) (keyword setting' word goesOn') := by
  unfold Step.keyword
  rw [h.source]
  apply h.bind (h.seesWord word)
  intro sees
  split
  · apply h.atPlace
    intro start hstart
    apply h.bind (h.advanceBy _)
    intro _
    apply h.bind hgoesOn
    intro goes
    split
    · exact h.missAt hstart
    · exact h.pure _
  · exact h.pure _

theorem keywordList (h : CongruenceOn At setting setting' R) (hx : R Match x x')
    (words : List String) :
    R Match (keywordList setting x words) (keywordList setting' x' words) := by
  unfold Step.keywordList
  rw [h.source]
  apply h.atPlace
  intro start hstart
  apply h.bind hx
  intro m
  split
  · apply h.atPlace
    intro stop _
    dsimp only
    split
    · exact h.pure _
    · exact h.missAt hstart
  · exact h.pure _

/-! ### Combinators -/

theorem sequence (h : CongruenceOn At setting setting' R) (hgap : R Unit gap gap')
    (hx : R Match x x') (hy : R Match y y') :
    R Match (sequence gap x y) (sequence gap' x' y') := by
  apply h.atPlace
  intro start hstart
  apply h.bind hx
  intro m
  split
  · apply h.bind hgap
    intro _
    apply h.bind hy
    intro m'
    split
    · exact h.matchedSince start
    · exact h.missAt hstart
  · exact h.missAt hstart

theorem alternative (h : CongruenceOn At setting setting' R) (hx : R Match x x')
    (hy : R Match y y') : R Match (alternative x y) (alternative x' y') := by
  apply h.atPlace
  intro start hstart
  apply h.bind hx
  intro m
  split
  · exact h.pure m
  · apply h.bind (h.rewind start hstart)
    intro _
    apply h.bind hy
    intro m'
    split
    · exact h.pure m'
    · exact h.missAt hstart

theorem optional (h : CongruenceOn At setting setting' R) (hx : R Match x x') :
    R Match (optional x) (optional x') := by
  apply h.atPlace
  intro start hstart
  apply h.bind hx
  intro m
  split
  · exact h.pure m
  · exact h.bind (h.rewind start hstart) fun _ => h.pure _

theorem difference (h : CongruenceOn At setting setting' R) (hx : R Match x x')
    (hy : R Match y y') : R Match (difference x y) (difference x' y') := by
  apply h.atPlace
  intro start hstart
  apply h.bind hx
  intro m
  split
  · apply h.atPlace
    intro stop hstop
    apply h.bind (h.rewind start hstart)
    intro _
    apply h.bind hy
    intro m'
    apply h.bind h.offset
    intro here
    split
    · exact h.missAt hstart
    · exact h.bind (h.rewind stop hstop) fun _ => h.pure m
  · exact h.pure m

theorem exclusiveOr (h : CongruenceOn At setting setting' R) (hx : R Match x x')
    (hy : R Match y y') : R Match (exclusiveOr x y) (exclusiveOr x' y') := by
  refine h.atPlace fun start hstart => h.bind hx fun m => h.atPlace fun stop hstop =>
    h.bind (h.rewind start hstart) fun _ => h.bind hy fun m' => ?_
  split
  · exact h.bind (h.rewind stop hstop) fun _ => h.pure m
  · exact h.pure m'
  · exact h.missAt hstart

theorem intersection (h : CongruenceOn At setting setting' R) (hx : R Match x x')
    (hy : R Match y y') : R Match (intersection x y) (intersection x' y') := by
  apply h.atPlace
  intro start hstart
  apply h.bind hx
  intro m
  split
  · apply h.bind h.offset
    intro stop
    apply h.bind (h.rewind start hstart)
    intro _
    apply h.bind hy
    intro m'
    apply h.bind h.offset
    intro here
    split
    · exact h.pure m
    · exact h.missAt hstart
  · exact h.pure m

theorem expectation (h : CongruenceOn At setting setting' R) (hx : R Match x x')
    (expected : String) :
    R Match (orElse x fun start => failExpectingHere setting expected start)
      (orElse x' fun start => failExpectingHere setting' expected start) := by
  apply h.atPlace
  intro start _
  apply h.bind hx
  intro m
  split
  · exact h.pure m
  · exact h.atPlace fun stop _ => h.failExpecting expected start stop

theorem action (h : CongruenceOn At setting setting' R) (hx : R Match x x')
    (run : ActionContext V W → ActionContext V W) :
    R Match (action setting run x) (action setting' run x') := by
  apply h.atPlace
  intro start hstart
  apply h.bind hx
  intro m
  split
  · exact h.act run start m hstart
  · exact h.pure m

/-! ### Loops

A loop that counts its rounds breaks off when the count is used up. It is related to itself where
breaking off is. -/

theorem skipBefore (h : CongruenceOn At setting setting' R) (hgap : R Unit gap gap')
    (count : Nat) : R Unit (skipBefore gap count) (skipBefore gap' count) := by
  unfold Step.skipBefore
  split
  · exact hgap
  · exact h.pure ()

theorem repeatMany (h : CongruenceOn At setting setting' R)
    (hexhausted : R Nat exhausted exhausted) (hgap : R Unit gap gap') (hx : R Match x x')
    (fuel count : Nat) : R Nat (repeatMany gap x fuel count) (repeatMany gap' x' fuel count) := by
  induction fuel generalizing count with
  | zero => exact hexhausted
  | succ fuel ih =>
      refine h.atPlace fun round hround => h.bind (h.skipBefore hgap count) fun _ =>
        h.bind h.offset fun before => h.bind hx fun m => h.bind h.offset fun here => ?_
      split
      · exact h.bind (h.rewind round hround) fun _ => h.pure _
      · exact ih (count + 1)

theorem repeated (h : CongruenceOn At setting setting' R)
    (hexhausted : R Nat exhausted exhausted) (hgap : R Unit gap gap') (hx : R Match x x')
    (least : Nat) : R Match (repeated setting gap x least) (repeated setting' gap' x' least) := by
  unfold Step.repeated rounds
  rw [h.source]
  apply h.atPlace
  intro start hstart
  apply h.bind (h.repeatMany hexhausted hgap hx _ 0)
  intro count
  split
  · exact h.missAt hstart
  · exact h.matchedSince start

theorem listTail (h : CongruenceOn At setting setting' R)
    (hexhausted : R Unit exhausted exhausted) (hgap : R Unit gap gap') (hx : R Match x x')
    (hy : R Match y y') (fuel : Nat) :
    R Unit (listTail gap x y fuel) (listTail gap' x' y' fuel) := by
  induction fuel with
  | zero => exact hexhausted
  | succ fuel ih =>
      apply h.atPlace
      intro round hround
      apply h.bind hgap
      intro _
      apply h.bind hy
      intro m
      split
      · apply h.bind hgap
        intro _
        apply h.bind hx
        intro m'
        split
        · apply h.bind h.offset
          intro here
          split
          · exact h.pure ()
          · exact ih
        · exact h.rewind round hround
      · exact h.rewind round hround

theorem list (h : CongruenceOn At setting setting' R) (hexhausted : R Unit exhausted exhausted)
    (hgap : R Unit gap gap') (hx : R Match x x') (hy : R Match y y') :
    R Match (list setting gap x y) (list setting' gap' x' y') := by
  unfold Step.list rounds
  rw [h.source]
  apply h.atPlace
  intro start _
  apply h.bind hx
  intro m
  split
  · exact h.bind (h.listTail hexhausted hgap hx hy _) fun _ => h.matchedSince start
  · exact h.pure _

/-! ### Trees -/

/-- The evaluations of a tree are related if the steps at the places where rules come in are, as far
as the references of the tree go, and so are the loops over related steps. -/
theorem evalParser (h : CongruenceOn At setting setting' R) (call call' : RuleId → Step V W Match)
    {ref : RuleRef → Nat → Prop} {act : Action V W → Prop}
    (hskip : R Unit (skip setting call) (skip setting' call'))
    (hkeyword : ∀ rule, ref rule 0 →
      R Bool (lookAhead (call rule.id)) (lookAhead (call' rule.id)))
    (hcall : ∀ rule instanceName args, ref rule args.length →
      R Match (evalParser setting call (.nonterminal rule instanceName args))
        (evalParser setting' call' (.nonterminal rule instanceName args)))
    (hrepeated : ∀ (body : LinkedParser V W) (least : Nat),
      R Match (evalParser setting call body) (evalParser setting' call' body) →
      R Match (Step.repeated setting (skip setting call) (evalParser setting call body) least)
        (Step.repeated setting' (skip setting' call') (evalParser setting' call' body) least))
    (hlist : ∀ element separator : LinkedParser V W,
      R Match (evalParser setting call element) (evalParser setting' call' element) →
      R Match (evalParser setting call separator) (evalParser setting' call' separator) →
      R Match
        (Step.list setting (skip setting call) (evalParser setting call element)
          (evalParser setting call separator))
        (Step.list setting' (skip setting' call') (evalParser setting' call' element)
          (evalParser setting' call' separator)))
    {p : LinkedParser V W} (hp : p.Every ref act) :
    R Match (evalParser setting call p) (evalParser setting' call' p) := by
  induction p with
  | empty => exact h.pure _
  | anyChar => exact h.scanOne _
  | atEnd => exact h.atEnd
  | char c => exact h.scanOne _
  | literal word => exact h.literal _
  | oneOf cls => exact h.scanOne _
  | set chars => exact h.scanOne _
  | range first last => exact h.scanOne _
  | keyword word continuation =>
      cases continuation with
      | none => exact h.keyword _ h.seesIdCont
      | some rule => exact h.keyword _ (hkeyword rule hp)
  | keywordList selector words ih => exact h.keywordList (ih hp) words
  | sequence l r ihl ihr => exact h.sequence hskip (ihl hp.1) (ihr hp.2)
  | alternative l r ihl ihr => exact h.alternative (ihl hp.1) (ihr hp.2)
  | optional body ih => exact h.optional (ih hp)
  | star body ih => exact hrepeated body 0 (ih hp)
  | plus body ih => exact hrepeated body 1 (ih hp)
  | difference l r ihl ihr => exact h.difference (ihl hp.1) (ihr hp.2)
  | exclusiveOr l r ihl ihr => exact h.exclusiveOr (ihl hp.1) (ihr hp.2)
  | intersection l r ihl ihr => exact h.intersection (ihl hp.1) (ihr hp.2)
  | list element separator ihe ihs => exact hlist element separator (ihe hp.1) (ihs hp.2)
  | grouping body ih => exact ih hp
  | token body ih => exact h.inToken (ih hp)
  | expectation body ih => exact h.expectation (ih hp) _
  | action action body ih => exact h.action (ih hp.2) action.run
  | nonterminal rule instanceName args => exact hcall rule instanceName args hp

end CongruenceOn

/-- A relation that the basic steps keep, wherever they go, and that holds where both sides break
off. -/
structure Congruence (setting setting' : Setting V W)
    (R : (α : Type) → Step V W α → Step V W α → Prop) : Prop where
  source : setting'.source = setting.source
  pure : ∀ {α : Type} (a : α), R α (pure a) (pure a)
  bind : ∀ {α β : Type} {x x' : Step V W α} {f f' : α → Step V W β},
    R α x x' → (∀ a, R β (f a) (f' a)) → R β (x >>= f) (x' >>= f')
  look : ∀ {α : Type} {f : State V W → Step V W α},
    OfCursor f → (∀ s, R α (f s) (f s)) → R α (get >>= f) (get >>= f)
  move : ∀ f : Cursor → Cursor, R Unit (scan (.mapCursor f)) (scan (.mapCursor f))
  inToken : ∀ {x x' : Step V W Match}, R Match x x' → R Match (inToken x) (inToken x')
  exhausted : ∀ {α : Type}, R α exhausted exhausted
  failExpecting : ∀ {α : Type} (expected : String) (first last : Position),
    R α (failExpecting setting expected first last) (failExpecting setting' expected first last)
  act : ∀ (run : ActionContext V W → ActionContext V W) (start : Position) (m : Match),
    R Match (act setting run start m) (act setting' run start m)

namespace Congruence

variable {setting setting' : Setting V W} {R : (α : Type) → Step V W α → Step V W α → Prop}

theorem place (h : Congruence setting setting' R) : R Position place place := by
  unfold Step.place
  exact h.look (fun s t hst => by simp only [Scanner.position, hst]) fun _ => h.pure _

theorem everywhere (h : Congruence setting setting' R) :
    CongruenceOn (fun _ => True) setting setting' R where
  source := h.source
  pure := h.pure
  bind := h.bind
  look := h.look
  atPlace hf := h.bind h.place fun p => hf p trivial
  advance := h.move _
  advanceBy _ := h.move _
  rewind _ _ := h.move _
  inToken := h.inToken
  failExpecting := h.failExpecting
  act run start m _ := h.act run start m

/-- The evaluations of a tree are related if the steps at the places where rules come in are, as far
as the references of the tree go. -/
theorem evalParser (h : Congruence setting setting' R) (call call' : RuleId → Step V W Match)
    {ref : RuleRef → Nat → Prop} {act : Action V W → Prop}
    (hskip : R Unit (skip setting call) (skip setting' call'))
    (hkeyword : ∀ rule, ref rule 0 →
      R Bool (lookAhead (call rule.id)) (lookAhead (call' rule.id)))
    (hcall : ∀ rule instanceName args, ref rule args.length →
      R Match (evalParser setting call (.nonterminal rule instanceName args))
        (evalParser setting' call' (.nonterminal rule instanceName args)))
    {p : LinkedParser V W} (hp : p.Every ref act) :
    R Match (evalParser setting call p) (evalParser setting' call' p) :=
  h.everywhere.evalParser call call' hskip hkeyword hcall
    (fun _ least hx => h.everywhere.repeated h.exhausted hskip hx least)
    (fun _ _ hx hy => h.everywhere.list h.exhausted hskip hx hy) hp

end Congruence

end Step

end AttrGrammar.Parse

import AttrGrammar.Proofs.Cutoff
import AttrGrammar.Proofs.Reading

/-! Every parse under a limit on nesting comes to an end. Three things shrink together: how many more
activations may be opened, the tree below the one being evaluated, and, from one round of a loop to
the next, the text that is left. A round that reads nothing ends its loop, so parts that match the
empty text do no harm, and neither does a rule that calls itself at once. Hence the fuel for one
activation more than the limit allows is never used up, nor are the rounds that a loop may have. -/

namespace AttrGrammar.Parse
open Text Scan Peg

variable {V W α β : Type}

theorem Failure.error_ne_outOfFuel (e : ParseError) : Failure.error e ≠ .outOfFuel := nofun

namespace Step

/-- From a place in the text, and with `k` activations open, the step does not run out of fuel; where
it comes to its end it is at such a place again, with as many activations open. -/
def Finishes (text : Buffer) (k : Nat) (x : Step V W α) : Prop :=
  ∀ s, s.depth = k → s.scanner.offset ≤ text.size →
    x.Ensures s (fun _ t => t.depth = k ∧ t.scanner.offset ≤ text.size) fun e _ => e ≠ .outOfFuel

theorem Reading.moving {text : Buffer} {x : Step V W Match} (h : Reading text x) : Moving text x :=
  fun s => (h s).imp fun _ _ ht => ht.forward

namespace Finishes

variable {text : Buffer} {k : Nat} {x y : Step V W Match} {gap : Step V W Unit} {s : State V W}

theorem fail (text : Buffer) (k : Nat) (e : ParseError) :
    Finishes text k (fail e : Step V W α) := fun _ _ _ => Failure.error_ne_outOfFuel e

theorem bind {z : Step V W α} {f : α → Step V W β} (hz : Finishes text k z)
    (hf : ∀ a, Finishes text k (f a)) : Finishes text k (z >>= f) := by
  intro s hdepth hs
  rw [ensures_bind]
  apply (hz s hdepth hs).imp
  intro a t ht
  exact hf a t ht.1 ht.2

theorem place {f : Position → Step V W α}
    (hf : ∀ p : Position, p.offset ≤ text.size → Finishes text k (f p)) :
    Finishes text k (place >>= f) := by
  intro s hdepth hs
  rw [ensures_bind, ensures_place]
  exact hf s.scanner.position hs s hdepth hs

theorem flush : Finishes text k (flush : Step V W Unit) := by
  intro s hdepth hs
  simp only [Step.flush, ensures_bind, ensures_get]
  split
  · simp only [ensures_ite, ensures_pure, ensures_fail]
    split
    · exact ⟨hdepth, hs⟩
    · exact Failure.error_ne_outOfFuel _
  · exact ⟨hdepth, hs⟩

theorem offset_advance_le {c : Cursor} (hc : c.offset ≤ text.size) :
    (c.advance text).offset ≤ text.size := by
  by_cases hlt : c.offset < text.size
  · rw [Cursor.offset_advance hlt]
    omega
  · have hpeek : c.peek? text = none := by simp [Cursor.peek?, hlt]
    rwa [Cursor.advance, hpeek]

theorem congruence (setting : Setting V W) (k : Nat) :
    CallCongruence (fun p => p.offset ≤ setting.source.text.size) setting setting
      fun _ x _ => Finishes setting.source.text k x where
  source := rfl
  rules := rfl
  skipRule := rfl
  advance _ hc := offset_advance_le hc
  pure _ _ hdepth hs := ⟨hdepth, hs⟩
  bind hx hf := hx.bind hf
  look _ _ hf s := hf s s
  atPlace := place
  update hf s hdepth hs := ⟨(hf.depth s).trans hdepth, hf.place s hs⟩
  around := by
    intro α before after x _ hbefore hafter _ hx s hdepth hs
    show (between before (after s) x).Ensures s _ _
    rw [ensures_between]
    apply (hx _ ((hbefore.depth s).trans hdepth) (hbefore.place s hs)).imp
    intro a t ht
    exact ⟨((hafter s).depth t).trans ht.1, (hafter s).place t ht.2⟩
  fail := fail _ k

/-! ### Loops

A round that does not end its loop leaves less text than there was, so the rounds granted are as many
as there can be. -/

/-- What a loop may rely on: the parts of a round finish, and they never go back. -/
theorem forward {z : Step V W α} (hz : Finishes text k z) (hmoves : Moving text z)
    (hdepth : s.depth = k) (hs : s.scanner.offset ≤ text.size) :
    z.Ensures s (fun _ t => t.depth = k ∧ t.scanner.offset ≤ text.size ∧
      s.scanner.offset ≤ t.scanner.offset) fun e _ => e ≠ .outOfFuel :=
  ((hz s hdepth hs).and (hmoves s)).mono (fun _ _ ht => ⟨ht.1.1, ht.1.2, ht.2.offset_le⟩)
    fun _ _ he => he.1

theorem skipBefore (hgap : Finishes text k gap) (count : Nat) :
    Finishes text k (skipBefore gap count) := by
  unfold Step.skipBefore
  split
  · exact hgap
  · exact fun s hdepth hs => ⟨hdepth, hs⟩

theorem repeatMany (hgap : Finishes text k gap) (hmoves : Moving text gap)
    (hx : Finishes text k x) (hreads : Reading text x) (fuel count : Nat) (hdepth : s.depth = k)
    (hs : s.scanner.offset ≤ text.size) (hfuel : text.size - s.scanner.offset < fuel) :
    (repeatMany gap x fuel count).Ensures s
      (fun _ t => t.depth = k ∧ t.scanner.offset ≤ text.size) fun e _ => e ≠ .outOfFuel := by
  induction fuel generalizing count s with
  | zero => omega
  | succ fuel ih =>
      simp only [Step.repeatMany, ensures_bind, ensures_place, ensures_offset, ensures_ite,
        ensures_rewind, ensures_pure]
      apply ((hgap.skipBefore count).forward (hmoves.skipBefore count) hdepth hs).imp
      rintro _ t ⟨htdepth, ht, hgone⟩
      apply (hx.forward hreads.moving htdepth ht).imp
      rintro m u ⟨hudepth, hu, hread⟩
      split
      · exact ⟨hudepth, hs⟩
      · next hgoesOn =>
        have hadvanced : u.scanner.offset ≠ t.scanner.offset := fun hsame => by
          simp [hsame] at hgoesOn
        exact ih (count + 1) hudepth hu (by omega)

theorem repeated (setting : Setting V W) (hgap : Finishes setting.source.text k gap)
    (hmoves : Moving setting.source.text gap) (hx : Finishes setting.source.text k x)
    (hreads : Reading setting.source.text x) (least : Nat) :
    Finishes setting.source.text k (repeated setting gap x least) := by
  intro s hdepth hs
  have hrounds : setting.source.text.size - s.scanner.offset <
      rounds setting s.scanner.position := Nat.lt_succ_self _
  simp only [Step.repeated, ensures_bind, ensures_place, ensures_ite, ensures_missAt,
    ensures_matchedSince]
  apply (hgap.repeatMany hmoves hx hreads _ 0 hdepth hs hrounds).imp
  intro count t ht
  split
  · exact ⟨ht.1, hs⟩
  · exact ht

theorem listTail (hgap : Finishes text k gap) (hmoves : Moving text gap) (hx : Finishes text k x)
    (hxreads : Reading text x) (hy : Finishes text k y) (hyreads : Reading text y) (fuel : Nat)
    (hdepth : s.depth = k) (hs : s.scanner.offset ≤ text.size)
    (hfuel : text.size - s.scanner.offset < fuel) :
    (listTail gap x y fuel).Ensures s
      (fun _ t => t.depth = k ∧ t.scanner.offset ≤ text.size) fun e _ => e ≠ .outOfFuel := by
  induction fuel generalizing s with
  | zero => omega
  | succ fuel ih =>
      simp only [Step.listTail, ensures_bind, ensures_place, ensures_offset, ensures_ite,
        ensures_rewind, ensures_pure]
      apply (hgap.forward hmoves hdepth hs).imp
      rintro _ t ⟨htdepth, ht, hfirst⟩
      apply (hy.forward hyreads.moving htdepth ht).imp
      rintro m u ⟨hudepth, hu, hseparator⟩
      split
      · apply (hgap.forward hmoves hudepth hu).imp
        rintro _ v ⟨hvdepth, hv, hsecond⟩
        apply (hx.forward hxreads.moving hvdepth hv).imp
        rintro m' w ⟨hwdepth, hw, helement⟩
        split
        · split
          · exact ⟨hwdepth, hw⟩
          · next hadvanced =>
            have hplace : s.scanner.position.offset = s.scanner.offset := rfl
            exact ih hwdepth hw (by omega)
        · exact ⟨hwdepth, hs⟩
      · exact ⟨hudepth, hs⟩

theorem list (setting : Setting V W) (hgap : Finishes setting.source.text k gap)
    (hmoves : Moving setting.source.text gap) (hx : Finishes setting.source.text k x)
    (hxreads : Reading setting.source.text x) (hy : Finishes setting.source.text k y)
    (hyreads : Reading setting.source.text y) :
    Finishes setting.source.text k (list setting gap x y) := by
  intro s hdepth hs
  simp only [Step.list, ensures_bind, ensures_place, ensures_ite, ensures_pure,
    ensures_matchedSince]
  apply (hx.forward hxreads.moving hdepth hs).imp
  rintro m t ⟨htdepth, ht, hread⟩
  split
  · have hrounds : setting.source.text.size - t.scanner.offset <
        rounds setting s.scanner.position := by
      have hplace : s.scanner.position.offset = s.scanner.offset := rfl
      unfold rounds
      omega
    exact hgap.listTail hmoves hx hxreads hy hyreads _ htdepth ht hrounds
  · exact ⟨htdepth, ht⟩

/-! ### Trees and activations -/

theorem evalParser (setting : Setting V W) {call : RuleId → Step V W Match}
    (hcall : ∀ id, Finishes setting.source.text k (call id))
    (hreads : ∀ id, Reading setting.source.text (call id)) (p : LinkedParser V W) :
    Finishes setting.source.text k (evalParser setting call p) := by
  have hgap : Finishes setting.source.text k (Step.skip setting call) :=
    @CallCongruence.skip _ _ _ _ _ _ call call (congruence setting k) hcall
  have hmoves : Moving setting.source.text (Step.skip setting call) := .skip setting hreads
  have htree (p : LinkedParser V W) := evalParser_reading setting hreads p
  exact @CallCongruence.evalParser _ _ _ _ _ _ call call (congruence setting k) hcall
    (fun body least hbody => hgap.repeated setting hmoves hbody (htree body) least)
    (fun element separator hx hy =>
      hgap.list setting hmoves hx (htree element) hy (htree separator)) p

/-- An activation is refused, or its tree is evaluated one level further down. -/
theorem activate (setting : Setting V W) (rule : Rule V W) {tree : Step V W Match}
    (hlimit : 0 < setting.maxDepth) (hk : k ≤ setting.maxDepth)
    (htree : k < setting.maxDepth → Finishes setting.source.text (k + 1) tree) :
    Finishes setting.source.text k (activate setting rule tree) := by
  intro s hdepth hs
  by_cases hroom : k < setting.maxDepth
  · simp only [Step.activate, ensures_bind, ensures_place]
    refine ensures_enter setting rule (fun _ => Failure.error_ne_outOfFuel _)
      (fun log notices => ?_) fun _ _ => Failure.error_ne_outOfFuel _
    have hbody : Finishes setting.source.text (k + 1) (evaluate rule s.scanner.position tree) :=
      @CallCongruence.evaluate _ _ _ _ _ _ _ (congruence setting (k + 1)) rule hs tree tree
        (htree hroom)
    refine ensures_closing setting rule _
      (.mono (hbody _ (congrArg (· + 1) hdepth) hs) (fun m t ht => ?_) fun e t he => ?_)
    · refine ensures_leave setting rule _ m (fun _ _ => ⟨?_, ht.2⟩)
        fun _ _ => Failure.error_ne_outOfFuel _
      show t.depth - 1 = k
      omega
    · exact ensures_leave setting rule _ .miss (fun _ _ => he) fun _ _ => he
  · have hrefuses : setting.Refuses s.depth := ⟨hlimit, by omega⟩
    unfold Ensures
    rw [activate_refused rule _ hrefuses]
    exact Failure.error_ne_outOfFuel _

end Finishes

end Step

/-! ### Rules and parses -/

/-- Fuel for one activation more than the limit still admits is enough. -/
theorem evalRule_finishes (setting : Setting V W) (hlimit : 0 < setting.maxDepth) {fuel k : Nat}
    (hk : k ≤ setting.maxDepth) (hfuel : setting.maxDepth < fuel + k) (id : RuleId) :
    Step.Finishes setting.source.text k (evalRule setting fuel id) := by
  induction fuel generalizing k id with
  | zero => omega
  | succ fuel ih =>
      rw [evalRule]
      split
      · refine .activate setting _ hlimit hk fun hroom => ?_
        exact .evalParser setting (ih hroom (by omega)) (evalRule_reading setting fuel) _
      · exact .fail _ k _

theorem parseWithin_finishes {d : Domain V W} (hlimit : 0 < d.config.maxDepth) {fuel : Nat}
    (hfuel : d.config.maxDepth < fuel) (g : Grammar) (text : Buffer) (options : Options V)
    (world : W) : (parseWithin fuel d g text options world).outcome ≠ .error .outOfFuel := by
  have hcongruence := Step.Finishes.congruence (settingFor d g text options) 0
  have hrun : Step.Finishes text 0
      (runGrammar d g (settingFor d g text options) fuel options.args) :=
    @Step.CallCongruence.runGrammar _ _ _ _ _ _ d d hcongruence rfl rfl fuel fuel
      (evalRule_finishes _ hlimit (Nat.zero_le _) hfuel) .flush g options.args
  have hends := hrun (.start options.log world) rfl (Nat.zero_le _)
  rw [parseWithin_eq]
  unfold Step.Ensures at hends
  split at hends
  · next hok =>
    rw [hok]
    nofun
  · next e t herror =>
    rw [herror]
    rintro ⟨⟩
    exact hends rfl

/-- Under a limit on nesting every parse comes to an end, whatever the rules of the domain, the text
and the actions are: fuel for one activation more than the limit allows is never used up, nor are the
rounds that a loop may have. More fuel changes nothing. -/
theorem parse_terminates (d : Domain V W) (hlimit : 0 < d.config.maxDepth) (g : Grammar)
    (text : Buffer) (options : Options V) (world : W) (fuel : Nat)
    (hfuel : d.config.maxDepth < fuel) :
    (parseWithin fuel d g text options world).outcome ≠ .error .outOfFuel ∧
      parseWithin fuel d g text options world = parse d g text options world := by
  refine ⟨parseWithin_finishes hlimit hfuel g text options world, ?_⟩
  have hleast : fuelFor d text.size = d.config.maxDepth + 1 := if_pos hlimit
  have hsame : Step.Loosens (· = .outOfFuel) (settingFor d g text options)
      (settingFor d g text options) := ⟨rfl, rfl, rfl, .inl rfl⟩
  unfold parse
  rw [hleast]
  rcases parseWithin_cutOff hsame rfl rfl hfuel world with ⟨e, herror, rfl⟩ | hparse
  · exact absurd herror (parseWithin_finishes hlimit (Nat.lt_succ_self _) g text options world)
  · exact hparse

/-- Everything that could go on for ever: a repetition and a list of what matches the empty text, a
rule that calls itself first, and a skip rule that matches nothing. -/
def loopingGrammar : GrammarDecl Unit Unit where
  name := "looping"
  start := some "start"
  skip := some "nothing"
  rules := [
    { name := "start"
      definition := .sequence (.star .empty)
        (.sequence (.list (.optional (.char 'b')) .empty) (.call "left")) },
    { name := "left"
      definition := .sequence (.call "left") (.char 'a') },
    { name := "nothing"
      definition := .empty }]

def loopingDomain : Domain Unit Unit := Domain.build { maxDepth := 3 } [loopingGrammar]

def looping : Grammar := loopingDomain.grammars[0]?.get (by decide +kernel)

/-- None of these keeps a parse from coming to an end. -/
theorem parse_terminates_looping :
    0 < loopingDomain.config.maxDepth ∧ loopingDomain.config.maxDepth < 9 ∧
      (parseWithin 9 loopingDomain looping #['a'] {} ()).outcome ≠ .error .outOfFuel ∧
      parseWithin 9 loopingDomain looping #['a'] {} () =
        parse loopingDomain looping #['a'] {} () :=
  ⟨by decide, by decide,
    parse_terminates loopingDomain (by decide) looping #['a'] {} () 9 (by decide)⟩

end AttrGrammar.Parse

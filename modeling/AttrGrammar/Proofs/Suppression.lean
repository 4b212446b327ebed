import AttrGrammar.Proofs.Congruence
import AttrGrammar.Proofs.Reading

/-! Where no skip rule applies. Inside a token group, and while the skip rule itself runs, nothing is
skipped. Which rule would be skipped then makes no difference at all: not to what is matched, nor to
the values, the frame, the trace, the notices or what the actions do to the world. The groups that
are opened in between are closed again, so the same holds of rules called from there, of what is
looked ahead and of every round of a loop. -/

namespace AttrGrammar.Parse
open Text Scan Peg

variable {V W α β : Type}

namespace State

/-- What decides whether a skip rule applies: whether it is running, and how many token groups are
open. -/
def suppression (s : State V W) : Bool × Nat := (s.scanner.skipping, s.scanner.tokenDepth)

/-- No skip rule applies, whichever there is. -/
def Suppressed (s : State V W) : Prop := s.scanner.skipping = true ∨ 0 < s.scanner.tokenDepth

variable {s t : State V W}

theorem suppression_eq_iff : t.suppression = s.suppression ↔
    t.scanner.skipping = s.scanner.skipping ∧ t.scanner.tokenDepth = s.scanner.tokenDepth :=
  Prod.mk.injEq .. ▸ Iff.rfl

theorem suppression_of_level (h : t.level = s.level) : t.suppression = s.suppression := by
  obtain ⟨-, htoken, hskipping⟩ := level_eq_iff.1 h
  exact suppression_eq_iff.2 ⟨hskipping, htoken⟩

theorem Suppressed.congr (hs : s.Suppressed) (h : t.suppression = s.suppression) :
    t.Suppressed := by
  obtain ⟨hskipping, htoken⟩ := suppression_eq_iff.1 h
  unfold Suppressed
  rwa [hskipping, htoken]

theorem Suppressed.activeSkip (hs : s.Suppressed) (skipRule : Option RuleId) :
    s.scanner.activeSkip skipRule = none := by
  unfold Scanner.activeSkip Scanner.inToken
  obtain hskipping | htoken := hs
  · simp [hskipping]
  · simp [htoken]

/-- Whether a skip rule applies, and which, depends on the level alone. -/
theorem activeSkip_of_level (h : t.level = s.level) (skipRule : Option RuleId) :
    t.scanner.activeSkip skipRule = s.scanner.activeSkip skipRule := by
  obtain ⟨-, htoken, hskipping⟩ := level_eq_iff.1 h
  rw [Scanner.activeSkip, Scanner.activeSkip, Scanner.inToken, Scanner.inToken, htoken, hskipping]

end State

namespace Step

/-- Where no skip rule applies nothing is skipped. -/
theorem skip_of_inactive {setting : Setting V W} {s : State V W}
    (h : s.scanner.activeSkip setting.skipRule = none) (call : RuleId → Step V W Match) :
    skip setting call s = .ok () s := by
  rw [Step.skip, get_bind_apply, h]
  rfl

/-- The step leaves it as it is whether a skip rule applies. -/
def Composed (x : Step V W α) : Prop :=
  ∀ s, x.Ensures s (fun _ t => t.suppression = s.suppression) fun _ _ => True

/-- Wherever no skip rule applies, two steps do the same, and leave it so. -/
def Unaffected (x x' : Step V W α) : Prop :=
  ∀ s, s.Suppressed → x' s = x s ∧
    x.Ensures s (fun _ t => t.suppression = s.suppression) fun _ _ => True

variable {setting : Setting V W} {x x' y y' : Step V W Match} {call call' : RuleId → Step V W Match}

theorem Composed.of_staying {x : Step V W α} (h : Staying x) : Composed x := fun s =>
  (h s).imp fun _ _ ht => State.suppression_of_level ht.1

theorem Composed.unaffected {x : Step V W α} (h : Composed x) : Unaffected x x :=
  fun s _ => ⟨rfl, h s⟩

theorem Composed.fail (e : ParseError) : Composed (fail e : Step V W α) := fun _ => trivial

theorem Composed.modifyFrame (f : Frame V → Frame V) : Composed (modifyFrame f : Step V W Unit) :=
  fun _ => rfl

theorem Composed.enter (rule : Rule V W) : Composed (enter setting rule) := fun _ =>
  ensures_enter setting rule (fun _ => trivial) (fun _ _ => rfl) fun _ _ => trivial

namespace Unaffected

theorem pure (a : α) : Unaffected (pure a : Step V W α) (pure a) := fun _ _ => ⟨rfl, rfl⟩

theorem bind {x x' : Step V W α} {f f' : α → Step V W β} (hx : Unaffected x x')
    (hf : ∀ a, Unaffected (f a) (f' a)) : Unaffected (x >>= f) (x' >>= f') := by
  intro s hs
  obtain ⟨heq, hkept⟩ := hx s hs
  rw [ensures_bind, bind_apply, bind_apply, heq]
  refine ⟨?_, hkept.imp fun a t ht => ((hf a t (hs.congr ht)).2).imp fun _ _ hu => hu.trans ht⟩
  cases hrun : x s with
  | ok a t => exact (hf a t (hs.congr (hkept.of_ok hrun))).1
  | error e t => rfl

/-- A token group suppresses the skip by itself. -/
theorem inToken (hx : Unaffected x x') (s : State V W) : Step.inToken x' s = Step.inToken x s ∧
    (Step.inToken x).Ensures s (fun _ t => t.suppression = s.suppression) fun _ _ => True := by
  obtain ⟨heq, hkept⟩ :=
    hx { s with scanner := s.scanner.beginToken } (.inr (Nat.succ_pos _))
  rw [Step.inToken, Step.inToken, ensures_between]
  refine ⟨?_, hkept.imp fun m t ht => ?_⟩
  · unfold between
    rw [heq]
  · obtain ⟨hskipping, htoken⟩ := State.suppression_eq_iff.1 ht
    refine State.suppression_eq_iff.2 ⟨hskipping, ?_⟩
    show t.scanner.tokenDepth - 1 = s.scanner.tokenDepth
    rw [htoken]
    rfl

/-- The basic steps do not look at the skip rule. -/
theorem congruence (setting : Setting V W) (skipRule : Option RuleId) :
    Congruence setting { setting with skipRule } fun _ => Unaffected where
  source := rfl
  pure := .pure
  bind := .bind
  look _ hf := fun s hs => hf s s hs
  move _ := fun _ _ => ⟨rfl, rfl⟩
  inToken hx := fun s _ => hx.inToken s
  exhausted := fun _ _ => ⟨rfl, trivial⟩
  failExpecting _ _ _ := fun _ _ => ⟨rfl, trivial⟩
  act run start m := by
    refine fun s _ => ⟨rfl, ?_⟩
    simp only [act, ensures_bind, ensures_place, ensures_modifyGet]
    split
    · trivial
    · split <;> rfl

/-! ### Calls -/

theorem skip (setting : Setting V W) (skipRule : Option RuleId)
    (call call' : RuleId → Step V W Match) :
    Unaffected (Step.skip setting call) (Step.skip { setting with skipRule } call') := by
  intro s hs
  have hnone (setting : Setting V W) (call : RuleId → Step V W Match) :
      Step.skip setting call s = .ok () s := skip_of_inactive (hs.activeSkip _) call
  rw [hnone, ensures_iff_of_ok (hnone _ _), hnone]
  exact ⟨rfl, rfl⟩

theorem lookAhead (hx : Unaffected x x') : Unaffected (Step.lookAhead x) (Step.lookAhead x') := by
  refine bind (fun _ _ => ⟨rfl, rfl⟩) fun after => bind (fun _ _ => ⟨rfl, rfl⟩) fun height =>
    bind hx fun m => ?_
  exact fun _ _ => ⟨rfl, rfl⟩

theorem nonterminal (hx : Unaffected x x') (rule : Rule V W) (instanceName : String)
    (args : List (Argument V)) :
    Unaffected (Step.nonterminal rule instanceName args x)
      (Step.nonterminal rule instanceName args x') := by
  refine bind (Composed.of_staying (Staying.pushArguments rule 0 args)).unaffected fun _ =>
    bind hx fun m => ?_
  split
  · refine bind (Composed.of_staying (Staying.pop rule)).unaffected fun v => ?_
    exact bind (Composed.modifyFrame _).unaffected fun _ => pure m
  · exact pure m

theorem inFrame (hx : Unaffected x x') (frame : Frame V) :
    Unaffected (Step.inFrame frame x) (Step.inFrame frame x') := by
  intro s hs
  obtain ⟨heq, hkept⟩ := hx { s with frame } hs
  rw [ensures_inFrame]
  refine ⟨?_, hkept⟩
  unfold Step.inFrame between
  rw [heq]

theorem evaluate (hx : Unaffected x x') (rule : Rule V W) (start : Position) :
    Unaffected (Step.evaluate rule start x) (Step.evaluate rule start x') := by
  refine inFrame (bind (Composed.of_staying (Staying.popArguments rule _ [])).unaffected
    fun values => bind (Composed.modifyFrame _).unaffected fun _ => bind hx fun m => ?_) _
  refine Composed.unaffected fun s => ?_
  simp only [ensures_ite, ensures_missAt, ensures_bind, ensures_get, ensures_modifyFrame,
    ensures_matchedSince]
  split
  · split
    · split
      · rfl
      · trivial
    · trivial
  · rfl

theorem closing (hx : Unaffected x x') (rule : Rule V W) (start : Position) :
    Unaffected (Step.closing setting rule start x) (Step.closing setting rule start x') := by
  intro s hs
  obtain ⟨heq, hkept⟩ := hx s hs
  refine ⟨?_, ensures_closing setting rule start (hkept.mono (fun m t ht => ?_) fun e t _ => ?_)⟩
  · unfold Step.closing
    rw [heq]
  · exact ensures_leave setting rule start m (fun _ _ => ht) fun _ _ => trivial
  · exact ensures_leave setting rule start .miss (fun _ _ => trivial) fun _ _ => trivial

theorem activate (hx : Unaffected x x') (rule : Rule V W) :
    Unaffected (Step.activate setting rule x) (Step.activate setting rule x') :=
  bind (Composed.enter rule).unaffected fun _ => bind (fun _ _ => ⟨rfl, rfl⟩) fun start =>
    (hx.evaluate rule start).closing rule start

/-! ### Trees and rules -/

theorem evalParser {skipRule : Option RuleId} (hcall : ∀ id, Unaffected (call id) (call' id))
    (p : LinkedParser V W) :
    Unaffected (Parse.evalParser setting call p)
      (Parse.evalParser { setting with skipRule } call' p) := by
  refine (congruence setting skipRule).evalParser call call' (skip setting skipRule call call')
    (fun rule _ => (hcall rule.id).lookAhead) (fun rule instanceName args _ => ?_) p.every_trivial
  rw [Parse.evalParser, Parse.evalParser]
  dsimp only
  split
  · exact (hcall rule.id).nonterminal _ instanceName args
  · exact (Composed.fail _).unaffected

theorem evalRule (setting : Setting V W) (skipRule : Option RuleId) (fuel : Nat) (id : RuleId) :
    Unaffected (Parse.evalRule setting fuel id)
      (Parse.evalRule { setting with skipRule } fuel id) := by
  induction fuel generalizing id with
  | zero => exact fun _ _ => ⟨rfl, trivial⟩
  | succ fuel ih =>
      rw [Parse.evalRule, Parse.evalRule]
      dsimp only
      split
      · exact (evalParser ih _).activate _
      · exact (Composed.fail _).unaffected

end Unaffected

end Step

/-- A token group does not depend on the skip rule: whichever rule is to be skipped, or if there is
none, evaluating the group from the same state ends in the same way and leaves the same state. The
world may be anything and the actions may do with it what they like, for instance keep a list of what
they were shown, so they are also run the same number of times, in the same order and on the same
contexts. While the skip rule itself runs the same holds of every tree and every rule. -/
theorem token_skipRule (setting : Setting V W) (skipRule : Option RuleId) (fuel : Nat)
    (s : State V W) :
    let setting' := { setting with skipRule }
    (∀ p, evalParser setting' (evalRule setting' fuel) (.token p) s =
      evalParser setting (evalRule setting fuel) (.token p) s) ∧
    (s.scanner.skipping = true →
      (∀ p, evalParser setting' (evalRule setting' fuel) p s =
        evalParser setting (evalRule setting fuel) p s) ∧
      ∀ id, evalRule setting' fuel id s = evalRule setting fuel id s) := by
  intro setting'
  have hrule := Step.Unaffected.evalRule setting skipRule fuel
  refine ⟨fun p => ?_, fun hskipping => ⟨fun p => ?_, fun id => ?_⟩⟩
  · exact ((Step.Unaffected.evalParser hrule p).inToken s).1
  · exact (Step.Unaffected.evalParser hrule p s (.inl hskipping)).1
  · exact (hrule id s (.inl hskipping)).1

/-- A letter, a blank and a letter, with the blank as the skip rule. -/
def spacedSetting : Setting Unit Unit :=
  ⟨#[⟨⟨0⟩, "Blank", "G.Blank", "Blank", .char ' ', none, [], [], []⟩], ⟨#['a', ' ', 'b'], 0, ""⟩,
    some ⟨0⟩, 0⟩

/-- While the skip rule runs, the blank between two letters is not skipped, with or without it. -/
theorem token_skipRule_spaced :
    let setting' : Setting Unit Unit := { spacedSetting with skipRule := none }
    let s : State Unit Unit := { State.start none () with scanner := (Scanner.start none).beginSkip }
    let p : LinkedParser Unit Unit := .sequence (.char 'a') (.char 'b')
    s.scanner.skipping = true ∧ evalParser setting' (evalRule setting' 2) p s =
      evalParser spacedSetting (evalRule spacedSetting 2) p s := by
  intro setting' s p
  exact ⟨rfl, ((token_skipRule spacedSetting none 2 s).2 rfl).1 p⟩

end AttrGrammar.Parse

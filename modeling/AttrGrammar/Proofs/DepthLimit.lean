import AttrGrammar.Proofs.Termination

/-! The limit on nesting. It only ever cuts off: a parse that the limit does not stop is the same
parse under any higher limit, and without one. And it is kept: a parse never has more activations open
than the limit allows, those of the skip rule and of look-ahead included. To count them, the fuel of
an evaluation is taken at its word: with fuel for as many activations as the limit allows there is no
way to open one more inside them, and the parse still does the same, up to the activation that is
refused. -/

namespace AttrGrammar.Peg

/-- The domain with another limit on nesting. -/
def Domain.withLimit {V W : Type} (d : Domain V W) (limit : Nat) : Domain V W :=
  d.withConfig { d.config with maxDepth := limit }

end AttrGrammar.Peg

namespace AttrGrammar.Parse
open Text Scan Peg

variable {V W α β : Type}

/-- A failure by which a call is turned down: the limit is reached, or there is no such rule. -/
def Failure.TurnsDown : Failure → Prop
  | .error (.recursionLimitExceeded ..) | .error (.unlinked _) => True
  | _ => False

/-- A failure that a higher limit, or more fuel, can make go away. -/
def Failure.CutsOff (e : Failure) : Prop :=
  e = .outOfFuel ∨ ∃ rule limit location, e = .error (.recursionLimitExceeded rule limit location)

namespace Step

/-- With `k` activations open, the two steps do the same and leave as many open, or the first has no
fuel left at the very point where the second has a call turned down. -/
def Nests (k : Nat) (x x' : Step V W α) : Prop :=
  ∀ s, s.depth = k →
    (x' s = x s ∧ x.Ensures s (fun _ t => t.depth = k) fun _ _ => True) ∨
      ∃ e t, x s = .error .outOfFuel t ∧ x' s = .error e t ∧ e.TurnsDown

namespace Nests

variable {k : Nat} {x x' : Step V W α}

theorem refl {z : Step V W α}
    (h : ∀ s, s.depth = k → z.Ensures s (fun _ t => t.depth = k) fun _ _ => True) :
    Nests k z z :=
  fun s hdepth => .inl ⟨rfl, h s hdepth⟩

theorem bind {f f' : α → Step V W β} (hx : Nests k x x') (hf : ∀ a, Nests k (f a) (f' a)) :
    Nests k (x >>= f) (x' >>= f') := by
  intro s hdepth
  rcases hx s hdepth with ⟨hsame, hends⟩ | ⟨e, t, hrun, hrun', hdown⟩
  · rw [ensures_bind, bind_apply, bind_apply, hsame]
    unfold Ensures at hends ⊢
    cases hrun : x s with
    | error e t => exact .inl ⟨rfl, trivial⟩
    | ok a t =>
        rw [hrun] at hends
        exact hf a t hends
  · right
    rw [bind_apply, bind_apply, hrun, hrun']
    exact ⟨e, t, rfl, rfl, hdown⟩

theorem between {before after : State V W → State V W} (hbefore : ∀ s, (before s).depth = s.depth)
    (hafter : ∀ t, (after t).depth = t.depth) (hx : Nests k x x') :
    Nests k (between before after x) (between before after x') := by
  intro s hdepth
  rw [ensures_between]
  unfold Step.between
  rcases hx (before s) ((hbefore s).trans hdepth) with ⟨hsame, hends⟩ | ⟨e, t, hrun, hrun', hdown⟩
  · exact .inl ⟨by rw [hsame], hends.imp fun _ t ht => (hafter t).trans ht⟩
  · right
    rw [hrun, hrun']
    exact ⟨e, after t, rfl, rfl, hdown⟩

theorem flush : Nests k (flush : Step V W Unit) flush := by
  refine refl fun s hdepth => ?_
  simp only [Step.flush, ensures_bind, ensures_get]
  split
  · simp only [ensures_ite, ensures_pure, ensures_fail]
    split
    · exact hdepth
    · trivial
  · exact hdepth

theorem congruence (setting : Setting V W) (k : Nat) :
    CallCongruence (fun _ => True) setting setting fun _ x x' => Nests k x x' where
  source := rfl
  rules := rfl
  skipRule := rfl
  advance _ := id
  pure _ := refl fun _ hdepth => hdepth
  bind hx hf := hx.bind hf
  look _ _ hf s := hf s s
  atPlace hf s := hf s.scanner.position trivial s
  update hf := refl fun s hdepth => (hf.depth s).trans hdepth
  around hbefore hafter _ hx s := hx.between hbefore.depth (hafter s).depth s
  fail _ := refl fun _ _ => trivial

/-- Closing an activation takes it from the count. -/
theorem closing (setting : Setting V W) (rule : Rule V W) (start : Position)
    {body body' : Step V W Match} (hbody : Nests (k + 1) body body') {s : State V W}
    (hdepth : s.depth = k + 1) :
    (closing setting rule start body' s = closing setting rule start body s ∧
      (closing setting rule start body).Ensures s (fun _ t => t.depth = k) fun _ _ => True) ∨
    ∃ e t, closing setting rule start body s = .error .outOfFuel t ∧
      closing setting rule start body' s = .error e t ∧ e.TurnsDown := by
  rcases hbody s hdepth with ⟨hsame, hends⟩ | ⟨e, t, hrun, hrun', hdown⟩
  · left
    refine ⟨by unfold Step.closing; rw [hsame], ?_⟩
    refine ensures_closing setting rule start (hends.mono (fun m t ht => ?_)
      fun e t _ => ensures_trivial _ _)
    refine ensures_leave setting rule start m (fun _ _ => ?_) fun _ _ => trivial
    show t.depth - 1 = k
    rw [ht, Nat.add_sub_cancel]
  · obtain ⟨u, hclosing⟩ := closing_error setting rule start t
    exact .inr ⟨e, u, hclosing body s _ hrun, hclosing body' s e hrun', hdown⟩

theorem activate (setting : Setting V W) (rule : Rule V W) {tree tree' : Step V W Match}
    (htree : Nests (k + 1) tree tree') :
    Nests k (activate setting rule tree) (activate setting rule tree') := by
  intro s hdepth
  have hopens : (enter setting rule).Ensures s (fun _ t => t.depth = k + 1) fun _ _ => True :=
    ensures_enter setting rule (fun _ => trivial)
      (fun _ _ => congrArg (· + 1) hdepth) fun _ _ => trivial
  unfold Step.activate
  rw [ensures_bind, bind_apply, bind_apply]
  unfold Ensures at hopens ⊢
  cases hentered : enter setting rule s with
  | error e t => exact .inl ⟨rfl, trivial⟩
  | ok _ t =>
      rw [hentered] at hopens
      have hevaluate (start : Position) :
          Nests (k + 1) (evaluate rule start tree) (evaluate rule start tree') :=
        (congruence setting (k + 1)).evaluate rule trivial htree
      exact closing setting rule t.scanner.position (hevaluate _) hopens

end Nests

end Step

/-! ### Rules and parses -/

/-- Fuel for the activations that the limit still admits, and one unit more. -/
theorem evalRule_nests (setting : Setting V W) (hlimit : 0 < setting.maxDepth) {fuel k : Nat}
    (hfuel : fuel + k = setting.maxDepth) (id : RuleId) :
    Step.Nests k (evalRule setting fuel id) (evalRule setting (fuel + 1) id) := by
  induction fuel generalizing k id with
  | zero =>
      intro s hdepth
      have hrefuses : setting.Refuses s.depth := ⟨hlimit, by omega⟩
      right
      simp only [evalRule]
      cases setting.rules[id.index]? with
      | none => exact ⟨_, s, rfl, rfl, trivial⟩
      | some rule =>
          refine ⟨.error (setting.refusal rule s), s, rfl, ?_, trivial⟩
          exact Step.activate_refused rule _ hrefuses
  | succ fuel ih =>
      have hcall (id : RuleId) :
          Step.Nests (k + 1) (evalRule setting fuel id) (evalRule setting (fuel + 1) id) :=
        ih (by omega) id
      rw [evalRule, evalRule]
      split
      · refine .activate setting _ ?_
        exact (Step.Nests.congruence setting (k + 1)).evalParser_of_exhausted
          (.refl fun _ _ => trivial) hcall _
      · exact .refl fun _ _ => trivial

theorem loosens_withLimit (d : Domain V W) (g : Grammar) (text : Buffer) (options : Options V)
    {limit limit' : Nat} (hlimit : 0 < limit) (hle : limit ≤ limit' ∨ limit' = 0) :
    Step.Loosens Failure.CutsOff (settingFor (d.withLimit limit) g text options)
      (settingFor (d.withLimit limit') g text options) := by
  refine ⟨rfl, rfl, rfl, .inr ⟨fun depth hrefuses => ?_, fun rule s => .inr ⟨_, _, _, rfl⟩⟩⟩
  have hdepth : 0 < limit' ∧ limit' ≤ depth := hrefuses
  exact ⟨hlimit, show limit ≤ depth by omega⟩

/-- With fuel for as many activations as the limit allows the parse goes as far as it does with more.
It comes to the same outcome unless a call is turned down. -/
theorem parseWithin_limit (d : Domain V W) (hlimit : 0 < d.config.maxDepth) (g : Grammar)
    (text : Buffer) (options : Options V) (world : W) :
    let within := parseWithin d.config.maxDepth d g text options world
    let report := parse d g text options world
    within.log = report.log ∧ within.notices = report.notices ∧ within.world = report.world ∧
      (within.outcome = report.outcome ∨
        within.outcome = .error .outOfFuel ∧ ∃ e, report.outcome = .error e ∧ e.TurnsDown) := by
  have hreport : parse d g text options world =
      parseWithin (d.config.maxDepth + 1) d g text options world := by
    rw [parse, fuelFor, if_pos hlimit]
  rw [hreport, parseWithin_eq, parseWithin_eq]
  have hrun : Step.Nests 0
      (runGrammar d g (settingFor d g text options) d.config.maxDepth options.args)
      (runGrammar d g (settingFor d g text options) (d.config.maxDepth + 1) options.args) :=
    (Step.Nests.congruence _ 0).runGrammar rfl rfl
      (evalRule_nests _ hlimit (Nat.add_zero _)) .flush g options.args
  rcases hrun (.start options.log world) rfl with ⟨hsame, -⟩ | ⟨e, t, hrun, hrun', hdown⟩
  · rw [hsame]
    exact ⟨rfl, rfl, rfl, .inl rfl⟩
  · rw [hrun, hrun']
    exact ⟨rfl, rfl, rfl, .inr ⟨rfl, e, rfl, hdown⟩⟩

/-- The limit on nesting only cuts off, and it is kept. Where a parse under a limit comes to any other
end than that the limit was reached, it is the same parse under every higher limit and under none: it
has the same outcome, and leaves the same trace, notices and world. And an evaluation that can open
no more activations inside each other than the limit allows, since it has no fuel for one more, goes
as far as the parse does; it differs at most in the failure, where the parse has a call turned down. -/
theorem parse_withLimit (d : Domain V W) (g : Grammar) (text : Buffer) (options : Options V)
    (world : W) (limit : Nat) (hlimit : 0 < limit) :
    let report := parse (d.withLimit limit) g text options world
    let within := parseWithin limit (d.withLimit limit) g text options world
    ((∀ rule n location,
        report.outcome ≠ .error (.error (.recursionLimitExceeded rule n location))) →
      ∀ limit' fuel, limit ≤ limit' ∨ limit' = 0 → limit < fuel →
        parseWithin fuel (d.withLimit limit') g text options world = report) ∧
    within.log = report.log ∧ within.notices = report.notices ∧ within.world = report.world ∧
      (within.outcome = report.outcome ∨
        within.outcome = .error .outOfFuel ∧ ∃ e, report.outcome = .error e ∧ e.TurnsDown) := by
  intro report within
  refine ⟨fun hreached limit' fuel hle hfuel => ?_,
    parseWithin_limit (d.withLimit limit) hlimit g text options world⟩
  have hreport : report = parseWithin (limit + 1) (d.withLimit limit) g text options world :=
    congrArg (parseWithin · (d.withLimit limit) g text options world) (if_pos hlimit)
  rw [hreport] at hreached ⊢
  have hloosens := loosens_withLimit d g text options hlimit hle
  rcases parseWithin_cutOff hloosens rfl (.inl rfl) hfuel world with ⟨e, herror, hcut⟩ | hsame
  · rcases hcut with rfl | ⟨rule, n, location, rfl⟩
    · exact absurd herror (parseWithin_finishes hlimit (Nat.lt_succ_self limit) g text options world)
    · exact absurd herror (hreached rule n location)
  · exact hsame

/-- A rule that calls another one, between blanks. -/
def nestedGrammar : GrammarDecl Unit Unit where
  name := "nested"
  start := some "outer"
  skip := some "blank"
  rules := [
    { name := "outer"
      definition := .sequence (.call "inner") .atEnd },
    { name := "inner"
      definition := .char 'a' },
    { name := "blank"
      definition := .char ' ' }]

def nestedDomain : Domain Unit Unit := Domain.build {} [nestedGrammar]

def nested : Grammar := nestedDomain.grammars[0]?.get (by decide +kernel)

/-- Two activations suffice here, so that the parse without a limit is the same. -/
theorem parse_withLimit_nested :
    (∀ rule n location,
      (parse (nestedDomain.withLimit 2) nested #[' ', 'a'] {} ()).outcome ≠
        .error (.error (.recursionLimitExceeded rule n location))) ∧
      parseWithin 50 (nestedDomain.withLimit 0) nested #[' ', 'a'] {} () =
        parse (nestedDomain.withLimit 2) nested #[' ', 'a'] {} () := by
  have hok : (parse (nestedDomain.withLimit 2) nested #[' ', 'a'] {} ()).outcome.toOption.isSome :=
    by decide +kernel
  have hreached (rule : String) (n : Nat) (location : Location) :
      (parse (nestedDomain.withLimit 2) nested #[' ', 'a'] {} ()).outcome ≠
        .error (.error (.recursionLimitExceeded rule n location)) := by
    intro herror
    rw [herror] at hok
    cases hok
  exact ⟨hreached, (parse_withLimit nestedDomain nested #[' ', 'a'] {} () 2 (by decide)).1 hreached
    0 50 (.inr rfl) (by decide)⟩

end AttrGrammar.Parse

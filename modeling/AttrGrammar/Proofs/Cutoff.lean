import AttrGrammar.Proofs.CallCongruence
import AttrGrammar.Proofs.Ensures

/-! Cutting off. A parse with less fuel, or under a lower limit on nesting, either breaks off with a
failure that says so or does exactly what it does with more. The failure is never taken for a miss:
no combinator goes on behind it, so it is the outcome of the whole parse. -/

namespace AttrGrammar.Parse
open Text Scan Peg

variable {V W α β : Type}

/-- Whether no activation may be opened while this many are open. -/
def Setting.Refuses (setting : Setting V W) (depth : Nat) : Prop :=
  0 < setting.maxDepth ∧ setting.maxDepth ≤ depth

/-- The error of an activation that is refused. -/
def Setting.refusal (setting : Setting V W) (rule : Rule V W) (s : State V W) : ParseError :=
  .recursionLimitExceeded rule.fullName setting.maxDepth
    (setting.location (s.scanner.currentSpan setting.source))

namespace Step

/-! ### Opening an activation -/

/-- Opens an activation without a limit. -/
def opening (source : Source) (rule : Rule V W) : Step V W Unit := do
  modify fun s => { s with depth := s.depth + 1 }
  unless (← get).scanner.skipping do
    let here ← place
    note (.entered rule.fullName here)
    trace (·.beginRule rule.name)
    trace (·.tryInput (source.textFrom here))

variable {setting setting' : Setting V W} {s : State V W}

theorem enter_refused (rule : Rule V W) (h : setting.Refuses s.depth) :
    enter setting rule s = .error (.error (setting.refusal rule s)) s := by
  have htest : (setting.maxDepth > 0 && setting.maxDepth ≤ s.depth) = true := by
    simpa [Setting.Refuses] using h
  show (if (setting.maxDepth > 0 && setting.maxDepth ≤ s.depth) = true then _ else _ :
    Step V W Unit) s = _
  rw [if_pos htest]
  rfl

theorem activate_refused (rule : Rule V W) (tree : Step V W Match) (h : setting.Refuses s.depth) :
    activate setting rule tree s = .error (.error (setting.refusal rule s)) s := by
  rw [activate, bind_apply, enter_refused rule h]

theorem enter_admitted (rule : Rule V W) (h : ¬ setting.Refuses s.depth) :
    enter setting rule s = opening setting.source rule s := by
  have htest : ¬ (setting.maxDepth > 0 && setting.maxDepth ≤ s.depth) = true := by
    simpa [Setting.Refuses] using h
  show (if (setting.maxDepth > 0 && setting.maxDepth ≤ s.depth) = true then _ else _ :
    Step V W Unit) s = _
  rw [if_neg htest]
  rfl

theorem closing_congr (hsource : setting'.source = setting.source) (rule : Rule V W)
    (start : Position) (body : Step V W Match) :
    closing setting' rule start body = closing setting rule start body := by
  unfold closing leave
  rw [hsource]

/-- An activation whose body breaks off is closed and breaks off the same way; where it ends does
not depend on the failure. -/
theorem closing_error (setting : Setting V W) (rule : Rule V W) (start : Position)
    (t : State V W) : ∃ u, ∀ (body : Step V W Match) (s : State V W) (e : Failure),
      body s = .error e t → closing setting rule start body s = .error e u := by
  cases hleave : leave setting rule start .miss t with
  | ok _ u => exact ⟨u, fun _ _ _ hbody => closing_of_error setting rule start hbody hleave⟩
  | error _ u => exact ⟨_, fun _ _ _ hbody => closing_of_errors setting rule start hbody hleave⟩

/-! ### Steps that are cut off -/

/-- The first step breaks off with a failure that `Cut` holds of, or the second does the same. -/
def CutOff (Cut : Failure → Prop) (x x' : Step V W α) : Prop :=
  ∀ s, (∃ e t, x s = .error e t ∧ Cut e) ∨ x' s = x s

namespace CutOff

variable {Cut : Failure → Prop} {x x' : Step V W α}

theorem refl (Cut : Failure → Prop) (x : Step V W α) : CutOff Cut x x := fun _ => .inr rfl

theorem bind {f f' : α → Step V W β} (hx : CutOff Cut x x') (hf : ∀ a, CutOff Cut (f a) (f' a)) :
    CutOff Cut (x >>= f) (x' >>= f') := by
  intro s
  rcases hx s with ⟨e, t, hrun, hcut⟩ | hsame
  · exact .inl ⟨e, t, by rw [bind_apply, hrun], hcut⟩
  · rw [bind_apply, bind_apply, hsame]
    cases x s with
    | ok a t => exact hf a t
    | error e t => exact .inr rfl

theorem between (before after : State V W → State V W) (hx : CutOff Cut x x') :
    CutOff Cut (between before after x) (between before after x') := by
  intro s
  unfold Step.between
  rcases hx (before s) with ⟨e, t, hrun, hcut⟩ | hsame
  · exact .inl ⟨e, after t, by rw [hrun], hcut⟩
  · exact .inr (by rw [hsame])

/-- An activation that is cut off is closed, and stays cut off. -/
theorem closing (setting : Setting V W) (rule : Rule V W) (start : Position)
    {body body' : Step V W Match} (hbody : CutOff Cut body body') :
    CutOff Cut (closing setting rule start body) (closing setting rule start body') := by
  intro s
  rcases hbody s with ⟨e, t, hrun, hcut⟩ | hsame
  · obtain ⟨u, hclosing⟩ := closing_error setting rule start t
    exact .inl ⟨e, u, hclosing body s e hrun, hcut⟩
  · right
    unfold Step.closing
    rw [hsame]

end CutOff

/-- Two settings that differ in the limit on nesting at most; and if they do, then the second one
refuses no activation that the first one admits, and to be refused counts as being cut off. -/
structure Loosens (Cut : Failure → Prop) (setting setting' : Setting V W) : Prop where
  source : setting'.source = setting.source
  rules : setting'.rules = setting.rules
  skipRule : setting'.skipRule = setting.skipRule
  limit : setting'.maxDepth = setting.maxDepth ∨
    (∀ depth, setting'.Refuses depth → setting.Refuses depth) ∧
      ∀ rule s, Cut (.error (setting.refusal rule s))

variable {Cut : Failure → Prop}

theorem Loosens.enter (h : Loosens Cut setting setting') (rule : Rule V W) :
    CutOff Cut (enter setting rule) (enter setting' rule) := by
  rcases h.limit with hsame | ⟨hadmits, hcut⟩
  · have hsetting : setting' = setting := by
      obtain ⟨rules, source, skipRule, maxDepth⟩ := setting
      obtain ⟨rules', source', skipRule', maxDepth'⟩ := setting'
      obtain rfl : source' = source := h.source
      obtain rfl : rules' = rules := h.rules
      obtain rfl : skipRule' = skipRule := h.skipRule
      obtain rfl : maxDepth' = maxDepth := hsame
      rfl
    rw [hsetting]
    exact .refl Cut _
  · intro s
    by_cases hrefuses : setting.Refuses s.depth
    · exact .inl ⟨_, s, enter_refused rule hrefuses, hcut rule s⟩
    · right
      rw [enter_admitted rule hrefuses, enter_admitted rule (mt (hadmits s.depth) hrefuses),
        h.source]

theorem Loosens.congruence (h : Loosens Cut setting setting') :
    CallCongruence (fun _ => True) setting setting' fun _ x x' => CutOff Cut x x' where
  source := h.source
  rules := h.rules
  skipRule := h.skipRule
  advance _ := id
  pure a := .refl Cut (pure a)
  bind hx hf := hx.bind hf
  look _ _ hf s := hf s s
  atPlace hf s := hf s.scanner.position trivial s
  update _ := .refl Cut _
  around _ _ _ hx s := hx.between _ _ s
  fail e := .refl Cut (fail e)

theorem Loosens.activate (h : Loosens Cut setting setting') (rule : Rule V W)
    {tree tree' : Step V W Match} (htree : CutOff Cut tree tree') :
    CutOff Cut (activate setting rule tree) (activate setting' rule tree') := by
  unfold Step.activate
  apply (h.enter rule).bind
  intro _
  apply (CutOff.refl Cut place).bind
  intro start
  rw [closing_congr h.source]
  exact .closing setting rule start (h.congruence.evaluate rule trivial htree)

end Step

/-! ### Rules and parses -/

variable {Cut : Failure → Prop}

theorem evalRule_cutOff {setting setting' : Setting V W} (h : Step.Loosens Cut setting setting')
    (houtOfFuel : Cut .outOfFuel) {fuel fuel' : Nat} (hfuel : fuel ≤ fuel') (id : RuleId) :
    Step.CutOff Cut (evalRule setting fuel id) (evalRule setting' fuel' id) := by
  induction fuel generalizing fuel' id with
  | zero => exact fun s => .inl ⟨.outOfFuel, s, rfl, houtOfFuel⟩
  | succ fuel ih =>
      obtain ⟨fuel', rfl⟩ : ∃ n, fuel' = n + 1 := ⟨fuel' - 1, by omega⟩
      have hcall := ih (Nat.le_of_succ_le_succ hfuel)
      rw [evalRule, evalRule, h.rules]
      split
      · next rule _ =>
        exact h.activate rule (h.congruence.evalParser_of_exhausted (.refl Cut _) hcall _)
      · exact .refl Cut _

theorem evalRule_refused {setting : Setting V W} {rule : Rule V W} {id : RuleId} (fuel : Nat)
    {s : State V W} (hrule : setting.rules[id.index]? = some rule)
    (h : setting.Refuses s.depth) :
    evalRule setting (fuel + 1) id s = .error (.error (setting.refusal rule s)) s := by
  rw [evalRule, hrule]
  exact Step.activate_refused rule _ h

/-- A parse with less fuel or under a lower limit is cut off, or it is the same parse. -/
theorem parseWithin_cutOff {d d' : Domain V W} {g : Grammar} {text : Buffer} {options : Options V}
    (h : Step.Loosens Cut (settingFor d g text options) (settingFor d' g text options))
    (hlength : d'.config.maxInputLength = d.config.maxInputLength) (houtOfFuel : Cut .outOfFuel)
    {fuel fuel' : Nat} (hfuel : fuel ≤ fuel') (world : W) :
    (∃ e, (parseWithin fuel d g text options world).outcome = .error e ∧ Cut e) ∨
      parseWithin fuel' d' g text options world = parseWithin fuel d g text options world := by
  rw [parseWithin_eq, parseWithin_eq]
  have hrun := h.congruence.runGrammar h.rules hlength (evalRule_cutOff h houtOfFuel hfuel)
    (.refl Cut _) g options.args
  rcases hrun (.start options.log world) with ⟨e, t, herror, hcut⟩ | hsame
  · rw [herror]
    exact .inl ⟨e, rfl, hcut⟩
  · rw [hsame]
    exact .inr rfl

end AttrGrammar.Parse

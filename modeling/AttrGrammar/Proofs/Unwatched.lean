import AttrGrammar.Proofs.Cutoff
import AttrGrammar.Proofs.Tracing

/-! Parses with a trace next to the same parses without one. Wherever a trace is written to, and
however the writer behaves, a parse comes to the same end without a trace, unless it breaks off with
the log error. This takes less than looking at what is written, and so holds of every trace. -/

namespace AttrGrammar.Parse
open Text Scan Peg

variable {V W α β : Type}

namespace Step

/-- Without a trace the second step ends as the first one does, unless that breaks off with the log
error. -/
def Unwatched (x x' : Step V W α) : Prop :=
  ∀ s, x.Ensures s (fun a t => x' (s.withLog none) = .ok a (t.withLog none))
    fun e _ => e ≠ .error .log → ∃ u, x' (s.withLog none) = .error e u

namespace Unwatched

variable {x x' : Step V W α} (setting : Setting V W) (rule : Rule V W)

theorem pure (a : α) : Unwatched (pure a : Step V W α) (pure a) := fun _ => rfl

theorem fail (e : ParseError) : Unwatched (fail e : Step V W α) (fail e) :=
  fun _ _ => ⟨_, rfl⟩

theorem bind {f f' : α → Step V W β} (hx : Unwatched x x') (hf : ∀ a, Unwatched (f a) (f' a)) :
    Unwatched (x >>= f) (x' >>= f') := by
  intro s
  rw [ensures_bind]
  refine (hx s).mono (fun a t ht => ?_) fun e t ht hlog => ?_
  · rw [bind_apply, ht]
    exact hf a t
  · obtain ⟨u, hu⟩ := ht hlog
    exact ⟨u, by rw [bind_apply, hu]⟩

theorem around {At : Position → Prop} {before : State V W → State V W}
    {after : State V W → State V W → State V W} (hbefore : Aloof At before)
    (hafter : ∀ s, Aloof At (after s)) (htraceless : Traceless after) (hx : Unwatched x x') :
    Unwatched (fun s => between before (after s) x s) fun s => between before (after s) x' s := by
  intro s
  show (between before (after s) x).Ensures s _ _
  rw [ensures_between]
  refine (hx (before s)).mono (fun a t ht => ?_) fun e t ht hlog => ?_
  · exact around_ok hbefore hafter htraceless ht
  · obtain ⟨u, hu⟩ := ht hlog
    refine ⟨after s u, ?_⟩
    show between before (after (s.withLog none)) x' (s.withLog none) = _
    rw [htraceless, between, hbefore.log, hu]

theorem congruence : CallCongruence (fun _ => True) setting setting
    fun (α : Type) (x x' : Step V W α) => Unwatched x x' where
  source := rfl
  rules := rfl
  skipRule := rfl
  advance _ := id
  pure := pure
  bind hx hf := hx.bind hf
  look {α} f f' hf hf' h s := by
    have hlook : (get >>= f' : Step V W α) (s.withLog none) = f' s (s.withLog none) := by
      rw [get_bind_apply, hf']
    rw [ensures_bind, ensures_get, hlook]
    exact h s s
  atPlace hf s := hf s.scanner.position trivial s
  update {f} hf s := congrArg (EStateM.Result.ok ()) (hf.log s none)
  around hbefore hafter htraceless hx := hx.around hbefore hafter htraceless
  fail := fail

/-! ### The trace -/

theorem trace (write : TraceLog → Bool × TraceLog) :
    Unwatched (trace write : Step V W Unit) (trace write) :=
  fun _ => ensures_trace write (fun _ => rfl) fun _ hlog => (hlog rfl).elim

theorem flush : Unwatched (flush : Step V W Unit) flush := by
  intro s
  simp only [Step.flush, ensures_bind, ensures_get]
  split
  · rw [ensures_ite]
    split
    · rfl
    · exact fun hlog => (hlog rfl).elim
  · rfl

theorem enter : Unwatched (enter setting rule) (enter setting rule) :=
  (congruence setting).enter setting rule (fun _ _ => rfl) fun _ => .trace _

theorem leave (start : Position) (m : Match) :
    Unwatched (leave setting rule start m) (leave setting rule start m) :=
  (congruence setting).leave setting rule start m (fun _ _ => rfl) fun _ => .trace _

theorem closing (start : Position) {body body' : Step V W Match} (hbody : Unwatched body body') :
    Unwatched (closing setting rule start body) (closing setting rule start body') := by
  refine fun s => ensures_closing setting rule start ((hbody s).mono (fun m t ht => ?_)
    fun e t ht => ?_)
  · rw [closing_of_ok setting rule start ht]
    refine (leave setting rule start m t).mono (fun _ u hu => ?_) fun e u hu hlog => ?_
    · rw [bind_apply, hu]
      rfl
    · obtain ⟨v, hv⟩ := hu hlog
      exact ⟨v, by rw [bind_apply, hv]⟩
  · have hended (hlog : e ≠ .error .log) :
        ∃ v, Step.closing setting rule start body' (s.withLog none) = .error e v := by
      obtain ⟨u, hu⟩ := ht hlog
      obtain ⟨v, hv⟩ := closing_error setting rule start u
      exact ⟨v, hv body' _ e hu⟩
    exact (ensures_trivial _ t).mono (fun _ _ _ => hended) fun _ _ _ => hended

theorem activate {tree tree' : Step V W Match} (htree : Unwatched tree tree') :
    Unwatched (activate setting rule tree) (activate setting rule tree') := by
  have h := congruence (V := V) (W := W) setting
  refine (enter setting rule).bind fun _ => h.atPlace fun start _ => ?_
  exact closing setting rule start (h.evaluate rule trivial htree)

end Unwatched

end Step

theorem evalRule_unwatched (setting : Setting V W) (fuel : Nat) (id : RuleId) :
    Step.Unwatched (evalRule setting fuel id) (evalRule setting fuel id) := by
  induction fuel generalizing id with
  | zero => exact fun _ _ => ⟨_, rfl⟩
  | succ fuel ih =>
      rw [evalRule]
      split
      · exact .activate setting _ ((Step.Unwatched.congruence setting).evalParser_of_exhausted
          (fun _ _ => ⟨_, rfl⟩) ih _)
      · exact .fail _

/-- Where a rule comes to its end without a trace, it comes to the same end with one. Only a trace that
can fail may break it off. -/
theorem evalRule_of_untraced {setting : Setting V W} {fuel : Nat} {id : RuleId} {s t : State V W}
    {m : Match} (h : evalRule setting fuel id (s.withLog none) = .ok m t) :
    (∃ u, evalRule setting fuel id s = .ok m u ∧ u.withLog none = t) ∨
      (∃ log, s.scanner.log = some log ∧ ¬ log.Unlimited) ∧
        ∃ u, evalRule setting fuel id s = .error (.error .log) u := by
  have hunwatched := evalRule_unwatched setting fuel id s
  cases hrun : evalRule setting fuel id s with
  | ok m' u =>
      have hsame := h.symm.trans (hunwatched.of_ok hrun)
      cases hsame
      exact .inl ⟨u, rfl, rfl⟩
  | error e u =>
      by_cases he : e = .error .log
      · subst he
        refine .inr ⟨?_, u, rfl⟩
        cases hlog : s.scanner.log with
        | none =>
            rw [State.withLog_eq_self.2 hlog, hrun] at h
            cases h
        | some log =>
            refine ⟨log, rfl, fun hunlimited => ?_⟩
            have hobserved := evalRule_observed 0 false setting fuel id (s.withLog none) rfl log
              hunlimited
            obtain ⟨log', hreturns⟩ := hobserved.of_ok h
            have hok : evalRule setting fuel id (s.withLog log) = .ok m (t.withLog log') :=
              hreturns.unlimited
            rw [State.withLog_eq_self.2 hlog, hrun] at hok
            cases hok
      · obtain ⟨v, hv⟩ := hunwatched.of_error hrun he
        cases h.symm.trans hv

/-- However a parse fails, other than for its trace, it fails so without a trace. -/
theorem parseWithin_unwatched {d : Domain V W} {g : Grammar} {text : Buffer} {options : Options V}
    {fuel : Nat} {world : W} {e : Failure} (he : e ≠ .error .log)
    (h : (parseWithin fuel d g text options world).outcome = .error e) :
    (parseWithin fuel d g text { options with log := none } world).outcome = .error e := by
  rw [parseWithin_eq] at h ⊢
  have hrun := (Step.Unwatched.congruence (settingFor d g text options)).runGrammar (d := d) rfl rfl
    (evalRule_unwatched _ fuel) .flush g options.args (.start options.log world)
  cases hended : runGrammar d g (settingFor d g text options) fuel options.args
      (.start options.log world) with
  | ok r t =>
      rw [hended] at h
      cases h
  | error e' t =>
      rw [hended] at h
      cases h
      obtain ⟨u, hu⟩ := hrun.of_error hended he
      have huntraced : runGrammar d g (settingFor d g text options) fuel options.args
          (.start none world) = .error e u := hu
      exact congrArg (fun r => (Report.ofRun r).outcome) huntraced

end AttrGrammar.Parse

import AttrGrammar.Proofs.CallCongruence
import AttrGrammar.Proofs.Ensures
import AttrGrammar.Proofs.TraceSink
import AttrGrammar.Peg.Link

/-! Tracing only looks on. Four runs of a step are followed side by side: without a trace, with a
trace that nothing bounds, with one whose sink has room for so many bytes, and one that leaves open
the activations that an error ends, so that its trace shows how much was written by the time the
error was raised. The first two do the same. The third does the same as long as everything it writes
fits. If a line is cut on the way to a match, it breaks off with the log error; if that happens while
an error closes activations, the error stays what it is. -/

namespace AttrGrammar.Parse
open Text Scan Peg

variable {V W α β : Type}

theorem State.withLog_eq_self {s : State V W} {log : Option TraceLog} :
    s.withLog log = s ↔ s.scanner.log = log := by
  constructor
  · intro h
    rw [← h]
    rfl
  · rintro rfl
    rfl

/-- An ending of a step, with another trace. -/
def Ending.withLog (r : EStateM.Result Failure (State V W) α) (log : Option TraceLog) :
    EStateM.Result Failure (State V W) α :=
  match r with
  | .ok a t => .ok a (t.withLog log)
  | .error e t => .error e (t.withLog log)

namespace Step

/-! ### Four runs of a step -/

section

variable (capacity : Nat) (flushFails : Bool)

/-- From the state `s`, which has no trace, the step `x` comes to its end with `a` in `t`. An
unbounded trace goes from `log` to `log'` meanwhile, and `r` is another run with an unbounded trace.
A bounded one gets the same lines; the run comes to the same end if they fit, and else it breaks off
with the log error. -/
structure Returns (x r : Step V W α) (s : State V W) (log : TraceLog) (a : α) (t : State V W)
    (log' : TraceLog) : Prop where
  untraced : t.scanner.log = none
  continues : log.Continues log'
  unlimited : x (s.withLog log) = .ok a (t.withLog log')
  raising : r (s.withLog log) = .ok a (t.withLog log')
  limited : ∀ seen, log.Fits capacity → log.Mirrors capacity flushFails seen →
    ∃ seen' : TraceLog, log'.Mirrors capacity flushFails seen' ∧
      (log'.Fits capacity → x (s.withLog seen) = .ok a (t.withLog seen')) ∧
      (¬ log'.Fits capacity →
        ∃ u : State V W, x (s.withLog seen) = .error (.error .log) (u.withLog seen'))

/-- From the state `s`, which has no trace, the step `x` breaks off with `e` in `t`. An unbounded
trace goes from `log` to `log'` meanwhile, and it was at `raised` when the error came up: there the
run `r` leaves it. With a bounded trace the run breaks off with the same error if what is written up
to there fits, and else with the log error. -/
structure Breaks (x r : Step V W α) (s : State V W) (log : TraceLog) (e : Failure) (t : State V W)
    (raised log' : TraceLog) : Prop where
  untraced : t.scanner.log = none
  raises : log.Continues raised
  closes : raised.Continues log'
  unlimited : x (s.withLog log) = .error e (t.withLog log')
  raising : ∃ u : State V W, r (s.withLog log) = .error e (u.withLog raised)
  limited : ∀ seen, log.Fits capacity → log.Mirrors capacity flushFails seen →
    ∃ (seen' : TraceLog) (e' : Failure) (u : State V W), log'.Mirrors capacity flushFails seen' ∧
      x (s.withLog seen) = .error e' (u.withLog seen') ∧
      (raised.Fits capacity → e' = e) ∧ (¬ raised.Fits capacity → e' = .error .log) ∧
      (log'.Fits capacity → u = t)

/-- However the step ends from `s`, the trace looks on. -/
def ObservedAt (x r : Step V W α) (s : State V W) : Prop :=
  ∀ log : TraceLog, log.Unlimited →
    x.Ensures s (fun a t => ∃ log', Returns capacity flushFails x r s log a t log')
      fun e t => ∃ raised log', Breaks capacity flushFails x r s log e t raised log'

def Observed (x r : Step V W α) : Prop :=
  ∀ s, s.scanner.log = none → ObservedAt capacity flushFails x r s

end

variable {capacity : Nat} {flushFails : Bool} {x r y q : Step V W α} {s t u : State V W}
  {log log' log'' raised : TraceLog} {a : α} {e : Failure}

/-- Only what the steps do from `s`, with this trace or that, counts. -/
theorem ObservedAt.congr (h : ObservedAt capacity flushFails x r s) (hs : s.scanner.log = none)
    (hx : ∀ log, y (s.withLog log) = x (s.withLog log))
    (hr : ∀ log, q (s.withLog log) = r (s.withLog log)) : ObservedAt capacity flushFails y q s := by
  have hbase : y s = x s := by
    have hnone := hx none
    rwa [State.withLog_eq_self.2 hs] at hnone
  intro log hlog
  have hends := h log hlog
  unfold Ensures at hends ⊢
  rw [hbase]
  cases hrun : x s with
  | ok a t =>
      rw [hrun] at hends
      obtain ⟨log', hreturns⟩ := hends
      obtain ⟨huntraced, hcontinues, hunlimited, hraising, hlimited⟩ := hreturns
      refine ⟨log', huntraced, hcontinues, (hx _).trans hunlimited, (hr _).trans hraising, ?_⟩
      intro seen
      rw [hx]
      exact hlimited seen
  | error e t =>
      rw [hrun] at hends
      obtain ⟨raised, log', hbreaks⟩ := hends
      obtain ⟨huntraced, hraises, hcloses, hunlimited, hraising, hlimited⟩ := hbreaks
      refine ⟨raised, log', huntraced, hraises, hcloses, (hx _).trans hunlimited, ?_, ?_⟩
      · rw [hr]
        exact hraising
      · intro seen
        rw [hx]
        exact hlimited seen

/-- Where a step that does not touch the trace ends, it has the trace that it began with. -/
theorem ensures_withLog (h : ∀ s log, x (s.withLog log) = Ending.withLog (x s) log)
    (hs : s.scanner.log = none) :
    x.Ensures s
      (fun a t => t.scanner.log = none ∧ ∀ log, x (s.withLog log) = .ok a (t.withLog log))
      fun e t => t.scanner.log = none ∧ ∀ log, x (s.withLog log) = .error e (t.withLog log) := by
  have hnone := h s none
  rw [State.withLog_eq_self.2 hs] at hnone
  unfold Ensures
  cases hrun : x s with
  | ok a t =>
      rw [hrun] at hnone
      injection hnone with _ ht
      refine ⟨State.withLog_eq_self.1 ht.symm, fun log => ?_⟩
      rw [h, hrun]
      rfl
  | error e t =>
      rw [hrun] at hnone
      injection hnone with _ ht
      refine ⟨State.withLog_eq_self.1 ht.symm, fun log => ?_⟩
      rw [h, hrun]
      rfl

/-- A step that does not touch the trace is observed. -/
theorem Observed.untouched (h : ∀ s log, x (s.withLog log) = Ending.withLog (x s) log) :
    Observed capacity flushFails x x := by
  intro s hs log hlog
  refine (ensures_withLog h hs).mono (fun a t hends => ?_) fun e t hends => ?_
  · obtain ⟨huntraced, hends⟩ := hends
    exact ⟨log, huntraced, .refl hlog, hends _, hends _, fun seen hfits hmirrors =>
      ⟨seen, hmirrors, fun _ => hends _, fun hcut => absurd hfits hcut⟩⟩
  · obtain ⟨huntraced, hends⟩ := hends
    exact ⟨log, log, huntraced, .refl hlog, .refl hlog, hends _, ⟨t, hends _⟩,
      fun seen hfits hmirrors => ⟨seen, e, t, hmirrors, hends _, fun _ => rfl,
        fun hcut => absurd hfits hcut, fun _ => rfl⟩⟩

/-! ### Chains of steps -/

section

variable {f g : α → Step V W β} {b : β}

theorem Returns.andReturns (hx : Returns capacity flushFails x r s log a t log')
    (hf : Returns capacity flushFails (f a) (g a) t log' b u log'') :
    Returns capacity flushFails (x >>= f) (r >>= g) s log b u log'' := by
  refine ⟨hf.untraced, hx.continues.trans hf.continues, ?_, ?_, fun seen hfits hmirrors => ?_⟩
  · rw [bind_apply, hx.unlimited]
    exact hf.unlimited
  · rw [bind_apply, hx.raising]
    exact hf.raising
  · obtain ⟨seen', hmirrors', hok, hcut⟩ := hx.limited seen hfits hmirrors
    rw [bind_apply]
    by_cases hfits' : log'.Fits capacity
    · rw [hok hfits']
      exact hf.limited seen' hfits' hmirrors'
    · obtain ⟨v, hv⟩ := hcut hfits'
      rw [hv]
      exact ⟨seen', hmirrors'.continue hfits' hf.continues,
        fun hfits'' => absurd (hf.continues.fits hfits'') hfits', fun _ => ⟨v, rfl⟩⟩

theorem Returns.andBreaks (hx : Returns capacity flushFails x r s log a t log')
    (hf : Breaks capacity flushFails (f a) (g a) t log' e u raised log'') :
    Breaks capacity flushFails (x >>= f) (r >>= g) s log e u raised log'' := by
  have hcontinues := hf.raises.trans hf.closes
  refine ⟨hf.untraced, hx.continues.trans hf.raises, hf.closes, ?_, ?_,
    fun seen hfits hmirrors => ?_⟩
  · rw [bind_apply, hx.unlimited]
    exact hf.unlimited
  · rw [bind_apply, hx.raising]
    exact hf.raising
  · obtain ⟨seen', hmirrors', hok, hcut⟩ := hx.limited seen hfits hmirrors
    rw [bind_apply]
    by_cases hfits' : log'.Fits capacity
    · rw [hok hfits']
      exact hf.limited seen' hfits' hmirrors'
    · obtain ⟨v, hv⟩ := hcut hfits'
      rw [hv]
      exact ⟨seen', .error .log, v, hmirrors'.continue hfits' hcontinues, rfl,
        fun hraised => absurd (hf.raises.fits hraised) hfits', fun _ => rfl,
        fun hfits'' => absurd (hcontinues.fits hfits'') hfits'⟩

theorem Breaks.andThen (hx : Breaks capacity flushFails x r s log e t raised log')
    (f g : α → Step V W β) :
    Breaks capacity flushFails (x >>= f) (r >>= g) s log e t raised log' := by
  refine ⟨hx.untraced, hx.raises, hx.closes, ?_, ?_, fun seen hfits hmirrors => ?_⟩
  · rw [bind_apply, hx.unlimited]
  · obtain ⟨v, hv⟩ := hx.raising
    exact ⟨v, by rw [bind_apply, hv]⟩
  · obtain ⟨seen', e', v, hmirrors', hv, hkept⟩ := hx.limited seen hfits hmirrors
    exact ⟨seen', e', v, hmirrors', by rw [bind_apply, hv], hkept⟩

theorem Observed.bind (hx : Observed capacity flushFails x r)
    (hf : ∀ a, Observed capacity flushFails (f a) (g a)) :
    Observed capacity flushFails (x >>= f) (r >>= g) := by
  intro s hs log hlog
  rw [ensures_bind]
  refine (hx s hs log hlog).mono (fun a t h => ?_) fun e t h => ?_
  · obtain ⟨log', hreturns⟩ := h
    refine (hf a t hreturns.untraced log' hreturns.continues.unlimited).mono (fun b u h => ?_)
      fun e u h => ?_
    · obtain ⟨log'', hreturns'⟩ := h
      exact ⟨log'', hreturns.andReturns hreturns'⟩
    · obtain ⟨raised, log'', hbreaks⟩ := h
      exact ⟨raised, log'', hreturns.andBreaks hbreaks⟩
  · obtain ⟨raised, log', hbreaks⟩ := h
    exact ⟨raised, log', hbreaks.andThen f g⟩

end

section

variable {before : State V W → State V W} {after : State V W → State V W → State V W}
  {At : Position → Prop} {old new : Option TraceLog}

theorem around_ok (hbefore : Aloof At before) (hafter : ∀ s, Aloof At (after s))
    (htraceless : Traceless after)
    (h : x ((before s).withLog old) = .ok a (t.withLog new)) :
    between before (after (s.withLog old)) x (s.withLog old) =
      .ok a ((after s t).withLog new) := by
  rw [between, hbefore.log, h, htraceless, ← (hafter s).log]

theorem around_error (hbefore : Aloof At before) (hafter : ∀ s, Aloof At (after s))
    (htraceless : Traceless after)
    (h : x ((before s).withLog old) = .error e (t.withLog new)) :
    between before (after (s.withLog old)) x (s.withLog old) =
      .error e ((after s t).withLog new) := by
  rw [between, hbefore.log, h, htraceless, ← (hafter s).log]

theorem Aloof.untraced (h : Aloof At before) (hs : s.scanner.log = none) :
    (before s).scanner.log = none := by
  have hnone := h.log s none
  rw [State.withLog_eq_self.2 hs] at hnone
  exact State.withLog_eq_self.1 hnone.symm

theorem Observed.around (hbefore : Aloof At before) (hafter : ∀ s, Aloof At (after s))
    (htraceless : Traceless after) (hx : Observed capacity flushFails x r) :
    Observed capacity flushFails (fun s => between before (after s) x s)
      fun s => between before (after s) r s := by
  intro s hs log hlog
  show (between before (after s) x).Ensures s _ _
  rw [ensures_between]
  refine (hx (before s) (hbefore.untraced hs) log hlog).mono (fun a t h => ?_) fun e t h => ?_
  · obtain ⟨log', huntraced, hcontinues, hunlimited, hraising, hlimited⟩ := h
    refine ⟨log', (hafter s).untraced huntraced, hcontinues,
      around_ok hbefore hafter htraceless hunlimited,
      around_ok hbefore hafter htraceless hraising, fun seen hfits hmirrors => ?_⟩
    obtain ⟨seen', hmirrors', hok, hcut⟩ := hlimited seen hfits hmirrors
    refine ⟨seen', hmirrors', fun hfits' => around_ok hbefore hafter htraceless (hok hfits'),
      fun hfull => ?_⟩
    obtain ⟨u, hu⟩ := hcut hfull
    exact ⟨after s u, around_error hbefore hafter htraceless hu⟩
  · obtain ⟨raised, log', huntraced, hraises, hcloses, hunlimited, ⟨u, hu⟩, hlimited⟩ := h
    refine ⟨raised, log', (hafter s).untraced huntraced, hraises, hcloses,
      around_error hbefore hafter htraceless hunlimited,
      ⟨after s u, around_error hbefore hafter htraceless hu⟩, fun seen hfits hmirrors => ?_⟩
    obtain ⟨seen', e', v, hmirrors', hv, hkept, hcut, hsame⟩ := hlimited seen hfits hmirrors
    exact ⟨seen', e', after s v, hmirrors', around_error hbefore hafter htraceless hv, hkept, hcut,
      fun hfits' => congrArg (after s) (hsame hfits')⟩

end

/-- All steps but those that write to the trace are observed when their parts are. -/
theorem observed_congruence (capacity : Nat) (flushFails : Bool) (setting : Setting V W) :
    CallCongruence (fun _ => True) setting setting
      fun _ x r => Observed capacity flushFails x r where
  source := rfl
  rules := rfl
  skipRule := rfl
  advance _ := id
  pure _ := .untouched fun _ _ => rfl
  bind hx hf := hx.bind hf
  look {α} f f' hf hf' h s hs := by
    refine (h s s hs).congr hs (fun log => ?_) fun log => ?_
    · show f (s.withLog log) (s.withLog log) = _
      rw [hf]
    · show f' (s.withLog log) (s.withLog log) = _
      rw [hf']
  atPlace hf s hs := (hf s.scanner.position trivial s hs).congr hs (fun _ => rfl) fun _ => rfl
  update {f} hf := .untouched fun s log =>
    congrArg (EStateM.Result.ok ()) (hf.log s log)
  around hbefore hafter htraceless hx := hx.around hbefore hafter htraceless
  fail _ := .untouched fun _ _ => rfl

/-! ### Writing -/

theorem trace_traced (write : TraceLog → Bool × TraceLog) (s : State V W) (log : TraceLog) :
    trace write (s.withLog log) =
      if (write log).1 then .ok () (s.withLog (write log).2)
      else .error (.error .log) (s.withLog (write log).2) := by
  have hwritten : trace write (s.withLog log) = (do
      scan fun s => { s with log := some (write log).2 }
      unless (write log).1 do fail .log : Step V W Unit) (s.withLog log) := rfl
  rw [hwritten]
  obtain ⟨done, log'⟩ := write log
  cases done <;> rfl

theorem trace_untraced {good : Unit → State V W → Prop} {bad : Failure → State V W → Prop}
    (write : TraceLog → Bool × TraceLog) (hs : s.scanner.log = none) :
    (trace write).Ensures s good bad ↔ good () s := by
  simp only [trace, ensures_bind, ensures_get, hs, ensures_pure]

theorem Observed.trace {write : TraceLog → Bool × TraceLog} (hwrite : TraceLog.Writes write) :
    Observed capacity flushFails (trace write : Step V W Unit) (trace write) := by
  intro s hs log hlog
  obtain ⟨hdone, hcontinues⟩ := hwrite.unlimited log hlog
  have hunlimited : Step.trace write (s.withLog log) = .ok () (s.withLog (write log).2) := by
    rw [trace_traced, if_pos hdone]
  refine (trace_untraced write hs).2 ⟨(write log).2, hs, hcontinues, hunlimited, hunlimited,
    fun seen hfits hmirrors => ?_⟩
  obtain ⟨hdone', hmirrors'⟩ := hwrite.limited hlog hfits hmirrors
  refine ⟨(write seen).2, hmirrors', fun hfits' => ?_, fun hcut => ⟨s, ?_⟩⟩
  · rw [trace_traced, if_pos (hdone'.2 hfits')]
  · rw [trace_traced, if_neg (mt hdone'.1 hcut)]

/-- The trace of the state is what a full sink holds of another one. -/
def Full (capacity : Nat) (flushFails : Bool) (log : TraceLog) (s : State V W) : Prop :=
  ∃ seen : TraceLog, s.scanner.log = some seen ∧ log.Mirrors capacity flushFails seen

theorem Full.trace (h : Full capacity flushFails log s) (hfull : ¬ log.Fits capacity)
    {write : TraceLog → Bool × TraceLog} (hwrite : TraceLog.Writes write) :
    (trace write).Ensures s (fun _ => Full capacity flushFails log)
      fun _ => Full capacity flushFails log := by
  obtain ⟨seen, hs, hmirrors⟩ := h
  have hmirrors' := hwrite.full hfull hmirrors
  rw [← State.withLog_eq_self.2 hs]
  unfold Ensures
  rw [trace_traced]
  split
  · next heq =>
    split at heq
    · cases heq
      exact ⟨_, rfl, hmirrors'⟩
    · cases heq
  · next heq =>
    split at heq
    · cases heq
    · cases heq
      exact ⟨_, rfl, hmirrors'⟩

/-! ### Activations -/

variable (setting : Setting V W) (rule : Rule V W) (start : Position) (m : Match)

section

variable {At : Position → Prop} {R : (α : Type) → Step V W α → Step V W α → Prop}
  (h : CallCongruence At setting setting R)
  (hdepth : ∀ f : Nat → Nat, R Unit (modify fun s => { s with depth := f s.depth })
    (modify fun s => { s with depth := f s.depth }))
  (htrace : ∀ {write}, TraceLog.Writes write → R Unit (trace write) (trace write))

include h hdepth htrace

/-- Besides the basic steps, opening an activation only counts it and writes lines of the trace. -/
theorem CallCongruence.enter : R Unit (enter setting rule) (enter setting rule) := by
  unfold Step.enter
  apply h.look (fun _ _ => rfl) fun _ _ => rfl
  intro s
  dsimp only
  split
  · exact h.look (fun _ _ => rfl) (fun _ _ => rfl) fun s => h.fail _
  · refine h.bind (hdepth (· + 1)) fun _ => ?_
    apply h.look (fun _ _ => rfl) fun _ _ => rfl
    intro s
    split
    · exact h.pure _
    · exact h.atPlace fun here _ => h.bind (h.note _) fun _ =>
        h.bind (htrace (TraceLog.writes_beginRule _)) fun _ => htrace (TraceLog.writes_tryInput _)

theorem CallCongruence.leave :
    R Unit (leave setting rule start m) (leave setting rule start m) := by
  unfold Step.leave
  refine h.bind (hdepth (· - 1)) fun _ => ?_
  apply h.look (fun _ _ => rfl) fun _ _ => rfl
  intro s
  dsimp only
  split
  · exact h.pure _
  · refine h.atPlace fun here _ => h.bind (h.note _) fun _ => ?_
    split
    · exact h.bind (htrace (TraceLog.writes_success _)) fun _ => htrace (TraceLog.writes_endRule _)
    · exact h.bind (htrace TraceLog.writes_fail) fun _ => htrace (TraceLog.writes_endRule _)

end

theorem Observed.enter :
    Observed capacity flushFails (enter setting rule) (enter setting rule) :=
  (observed_congruence capacity flushFails setting).enter setting rule
    (fun _ => .untouched fun _ _ => rfl) .trace

theorem Observed.leave :
    Observed capacity flushFails (leave setting rule start m) (leave setting rule start m) :=
  (observed_congruence capacity flushFails setting).leave setting rule start m
    (fun _ => .untouched fun _ _ => rfl) .trace

/-- Without a trace an activation can always be closed. -/
theorem leave_returns (capacity : Nat) (flushFails : Bool) (hs : s.scanner.log = none)
    (hlog : log.Unlimited) :
    (leave setting rule start m).Ensures s
      (fun _ t => ∃ log', Returns capacity flushFails (leave setting rule start m)
        (leave setting rule start m) s log () t log')
      fun _ _ => False := by
  have hnever : (leave setting rule start m).Ensures s (fun _ _ => True) fun _ _ => False := by
    simp only [Step.leave, ensures_bind, ensures_modify, ensures_get, ensures_ite, ensures_pure,
      ensures_place, ensures_note]
    split
    · trivial
    · split
      · refine (trace_untraced _ ?_).2 ((trace_untraced _ ?_).2 trivial) <;> exact hs
      · refine (trace_untraced _ ?_).2 ((trace_untraced _ ?_).2 trivial) <;> exact hs
  exact ((Observed.leave setting rule start m s hs log hlog).and hnever).mono
    (fun _ _ h => h.1) fun _ _ h => h.2

theorem Full.leave (h : Full capacity flushFails log s) (hfull : ¬ log.Fits capacity) :
    (leave setting rule start m).Ensures s (fun _ => Full capacity flushFails log)
      fun _ => Full capacity flushFails log := by
  simp only [Step.leave, ensures_bind, ensures_modify, ensures_get, ensures_ite, ensures_pure,
    ensures_place, ensures_note]
  split
  · exact h
  · have hdone {s : State V W} (h : Full capacity flushFails log s) :=
      h.trace hfull (TraceLog.writes_endRule rule.name)
    split
    · refine (Full.trace ?_ hfull (TraceLog.writes_success _)).imp fun _ _ => hdone
      exact h
    · refine (Full.trace ?_ hfull TraceLog.writes_fail).imp fun _ _ => hdone
      exact h

variable {body q : Step V W Match}

/-- An activation that an error ends is closed somehow when its trace is full already. -/
theorem closing_full {seen : TraceLog} (hfull : ¬ log.Fits capacity)
    (hmirrors : log.Mirrors capacity flushFails seen)
    (hbody : body s = .error e (t.withLog seen)) :
    ∃ (seen' : TraceLog) (u : State V W), log.Mirrors capacity flushFails seen' ∧
      closing setting rule start body s = .error e (u.withLog seen') := by
  have hends : Full capacity flushFails log (t.withLog seen) := ⟨seen, rfl, hmirrors⟩
  have hleave := hends.leave setting rule start .miss hfull
  unfold Ensures at hleave
  split at hleave
  · next u hu =>
    obtain ⟨seen', hseen', hmirrors'⟩ := hleave
    rw [closing_of_error setting rule start hbody hu]
    exact ⟨seen', u, hmirrors', by rw [State.withLog_eq_self.2 hseen']⟩
  · next u hu =>
    obtain ⟨seen', hseen', hmirrors'⟩ := hleave
    rw [closing_of_errors setting rule start hbody hu]
    let v : State V W := { u with notices := .traceUnclosed rule.fullName :: u.notices }
    have hv : v.withLog seen' = v := State.withLog_eq_self.2 hseen'
    exact ⟨seen', v, hmirrors', congrArg (EStateM.Result.error e) hv.symm⟩

theorem Returns.closed {m : Match} (hbody : Returns capacity flushFails body q s log m t log')
    (hleave : Returns capacity flushFails (leave setting rule start m) (leave setting rule start m)
      t log' () u log'') :
    Returns capacity flushFails (closing setting rule start body) (do
      let m ← q
      leave setting rule start m
      return m) s log m u log'' := by
  refine ⟨hleave.untraced, hbody.continues.trans hleave.continues, ?_, ?_,
    fun seen hfits hmirrors => ?_⟩
  · rw [closing_of_ok setting rule start hbody.unlimited, bind_apply, hleave.unlimited]
    rfl
  · rw [bind_apply, hbody.raising]
    dsimp only
    rw [bind_apply, hleave.raising]
    rfl
  · obtain ⟨seen', hmirrors', hok, hcut⟩ := hbody.limited seen hfits hmirrors
    by_cases hfits' : log'.Fits capacity
    · obtain ⟨seen'', hmirrors'', hok', hcut'⟩ := hleave.limited seen' hfits' hmirrors'
      rw [closing_of_ok setting rule start (hok hfits'), bind_apply]
      refine ⟨seen'', hmirrors'', fun hfits'' => ?_, fun hfull => ?_⟩
      · rw [hok' hfits'']
        rfl
      · obtain ⟨v, hv⟩ := hcut' hfull
        exact ⟨v, by rw [hv]⟩
    · obtain ⟨v, hv⟩ := hcut hfits'
      obtain ⟨seen'', w, hmirrors'', hw⟩ := closing_full setting rule start hfits' hmirrors' hv
      exact ⟨seen'', hmirrors''.continue hfits' hleave.continues,
        fun hfits'' => absurd (hleave.continues.fits hfits'') hfits', fun _ => ⟨w, hw⟩⟩

/-- The error that ends an activation stays what it is, whether or not the trace can be closed. -/
theorem Breaks.closed (hbody : Breaks capacity flushFails body q s log e t raised log')
    (hleave : Returns capacity flushFails (leave setting rule start .miss)
      (leave setting rule start .miss) t log' () u log'') :
    Breaks capacity flushFails (closing setting rule start body) (do
      let m ← q
      leave setting rule start m
      return m) s log e u raised log'' := by
  refine ⟨hleave.untraced, hbody.raises, hbody.closes.trans hleave.continues, ?_, ?_,
    fun seen hfits hmirrors => ?_⟩
  · exact closing_of_error setting rule start hbody.unlimited hleave.unlimited
  · obtain ⟨v, hv⟩ := hbody.raising
    exact ⟨v, by rw [bind_apply, hv]⟩
  · obtain ⟨seen', e', v, hmirrors', hv, hkept, hcut, hsame⟩ := hbody.limited seen hfits hmirrors
    by_cases hfits' : log'.Fits capacity
    · obtain rfl := hsame hfits'
      obtain ⟨seen'', hmirrors'', hok', hcut'⟩ := hleave.limited seen' hfits' hmirrors'
      by_cases hfits'' : log''.Fits capacity
      · exact ⟨seen'', e', u, hmirrors'',
          closing_of_error setting rule start hv (hok' hfits''), hkept, hcut, fun _ => rfl⟩
      · obtain ⟨w, hw⟩ := hcut' hfits''
        exact ⟨seen'', e', { w with notices := .traceUnclosed rule.fullName :: w.notices },
          hmirrors'', closing_of_errors setting rule start hv hw, hkept, hcut,
          fun h => absurd h hfits''⟩
    · obtain ⟨seen'', w, hmirrors'', hw⟩ := closing_full setting rule start hfits' hmirrors' hv
      exact ⟨seen'', e', w, hmirrors''.continue hfits' hleave.continues, hw, hkept, hcut,
        fun hfits'' => absurd (hleave.continues.fits hfits'') hfits'⟩

theorem Observed.closing (hbody : Observed capacity flushFails body q) :
    Observed capacity flushFails (closing setting rule start body) (do
      let m ← q
      Step.leave setting rule start m
      return m) := by
  intro s hs log hlog
  refine ensures_closing setting rule start ((hbody s hs log hlog).mono (fun m t h => ?_)
    fun e t h => ?_)
  · obtain ⟨log', hreturns⟩ := h
    refine (leave_returns setting rule start m capacity flushFails hreturns.untraced
      hreturns.continues.unlimited).mono (fun _ u h => ?_) fun _ _ => False.elim
    obtain ⟨log'', hleave⟩ := h
    exact ⟨log'', hreturns.closed setting rule start hleave⟩
  · obtain ⟨raised, log', hbreaks⟩ := h
    refine (leave_returns setting rule start .miss capacity flushFails hbreaks.untraced
      hbreaks.closes.unlimited).mono (fun _ u h => ?_) fun _ _ => False.elim
    obtain ⟨log'', hleave⟩ := h
    exact ⟨raised, log'', hbreaks.closed setting rule start hleave⟩

/-- An activation that is left open if an error ends it. -/
def leftOpen (setting : Setting V W) (rule : Rule V W) (tree : Step V W Match) :
    Step V W Match := do
  enter setting rule
  let start ← place
  let matched ← evaluate rule start tree
  leave setting rule start matched
  return matched

theorem Observed.activate {tree tree' : Step V W Match}
    (htree : Observed capacity flushFails tree tree') :
    Observed capacity flushFails (activate setting rule tree) (leftOpen setting rule tree') := by
  have h := observed_congruence capacity flushFails setting
  exact Observed.bind (.enter setting rule) fun _ => h.atPlace fun start _ =>
    .closing setting rule start (h.evaluate rule trivial htree)

/-! ### The end of a parse -/

theorem flush_traced (s : State V W) (log : TraceLog) :
    flush (s.withLog log) =
      if log.sink.flush then .ok () (s.withLog log) else .error (.error .log) (s.withLog log) := by
  have hflush : flush (s.withLog log) =
      (unless log.sink.flush do fail .log : Step V W Unit) (s.withLog log) := rfl
  rw [hflush]
  cases log.sink.flush <;> rfl

theorem flush_untraced (hs : s.scanner.log = none) : flush s = .ok () s := by
  rw [← State.withLog_eq_self.2 hs]
  rfl

theorem conclusion_withLog (setting : Setting V W) (start : Rule V W) (m : Match) (s : State V W)
    (log : Option TraceLog) :
    conclusion setting start m (s.withLog log) = Ending.withLog (conclusion setting start m s) log :=
  by
  have hlook (s : State V W) : conclusion setting start m s =
      (if m.isHit && s.scanner.cursor.atEnd setting.source.text then do
        note (.parsed setting.source.fileName)
        if start.hasValue then return (← get).stack.peek? else return none
      else do
        note (.stopped setting.source.fileName s.scanner.cursor.farthest)
        failExpecting setting start.info s.scanner.cursor.farthest s.scanner.cursor.farthest :
          Step V W (Option V)) s := rfl
  rw [hlook, hlook]
  show (if m.isHit && s.scanner.cursor.atEnd setting.source.text then _ else _ :
    Step V W (Option V)) (s.withLog log) = _
  split
  · cases start.hasValue <;> rfl
  · rfl

end Step

/-! ### Rules and parses -/

/-- The step that calling a rule means, up to an error raised in it: the activations that the error
ends are left open. -/
def raiseRule (setting : Setting V W) : Nat → RuleId → Step V W Match
  | 0, _ => .exhausted
  | fuel + 1, id =>
    match setting.rules[id.index]? with
    | some rule =>
      .leftOpen setting rule (evalParser setting (raiseRule setting fuel) rule.definition)
    | none => .fail (.unlinked (toString id.index))

theorem evalRule_observed (capacity : Nat) (flushFails : Bool) (setting : Setting V W) (fuel : Nat)
    (id : RuleId) :
    Step.Observed capacity flushFails (evalRule setting fuel id) (raiseRule setting fuel id) := by
  have h := Step.observed_congruence capacity flushFails setting
  induction fuel generalizing id with
  | zero => exact .untouched fun _ _ => rfl
  | succ fuel ih =>
      have hexhausted {α : Type} : Step.Observed capacity flushFails
          (Step.exhausted : Step V W α) Step.exhausted := .untouched fun _ _ => rfl
      rw [evalRule, raiseRule]
      cases setting.rules[id.index]? with
      | none => exact .untouched fun _ _ => rfl
      | some rule =>
          exact .activate setting rule (h.evalParser_of_exhausted hexhausted ih rule.definition)

theorem Report.ofRun_withLog (r : EStateM.Result Failure (State V W) α) (log : Option TraceLog) :
    Report.ofRun (Ending.withLog r log) = { Report.ofRun r with log } := by
  cases r <;> rfl

/-- While rules are evaluated the error `e` is raised, and a trace that nothing bounds has no more
than `capacity` bytes then. -/
def RaisedWithin (capacity lineLength fuel : Nat) (d : Domain V W) (g : Grammar) (text : Buffer)
    (options : Options V) (world : W) (e : Failure) : Prop :=
  let setting := settingFor d g text options
  ∃ start t log, startFor d g setting options.args = .ok start ∧
    Step.evaluation setting (raiseRule setting fuel) start options.args
      (.start (TraceLog.into .unlimited lineLength) world) = .error e t ∧
    t.scanner.log = some log ∧ log.sink.bytes.size ≤ capacity

/-- What a bounded trace can make of a parse, in terms of the parse without a trace and of what is
written without a bound. -/
structure Watched (capacity : Nat) (flushed : Prop) (untraced whole traced : Report α W) :
    Prop where
  bytes : ∃ written seen, whole.log = some written ∧ traced.log = some seen ∧
    seen.sink.bytes = written.sink.bytes.extract 0 capacity ∧
    (written.sink.bytes.size ≤ capacity → flushed → traced = { untraced with log := some seen })
  outcome : traced.outcome = untraced.outcome ∨ traced.outcome = .error (.error .log)

theorem Watched.imp {capacity : Nat} {flushed flushed' : Prop} {untraced whole traced : Report α W}
    (h : Watched capacity flushed untraced whole traced) (himp : flushed' → flushed) :
    Watched capacity flushed' untraced whole traced := by
  obtain ⟨written, seen, hwhole, htraced, hbytes, hsame⟩ := h.bytes
  exact ⟨⟨written, seen, hwhole, htraced, hbytes,
    fun hfits hflushed => hsame hfits (himp hflushed)⟩, h.outcome⟩

section

variable {capacity lineLength fuel : Nat} {flushFails : Bool} {setting : Setting V W}
  {start : Rule V W} {args : List V} {s t : State V W} {log log' raised seen : TraceLog} {m : Match}
  {e : Failure}

/-- A parse goes on where the evaluation of rules ends. -/
theorem runRule_of_ok (hrun : Step.evaluation setting (evalRule setting fuel) start args s = .ok m t) :
    runRule setting fuel start args s = (do
      Step.flush
      Step.conclusion setting start m) t := by
  rw [runRule_eq, Step.bind_apply, hrun]

theorem runRule_of_error
    (hrun : Step.evaluation setting (evalRule setting fuel) start args s = .error e t) :
    runRule setting fuel start args s = .error e t := by
  rw [runRule_eq, Step.bind_apply, hrun]

/-- A trace that can be passed on is left as it is, and changes nothing. -/
theorem runRule_flushed
    (hrun : Step.evaluation setting (evalRule setting fuel) start args s = .ok m (t.withLog log))
    (hflush : log.sink.flush = true) :
    Report.ofRun (runRule setting fuel start args s) =
      { Report.ofRun (Step.conclusion setting start m t) with log := some log } := by
  rw [runRule_of_ok hrun, Step.bind_apply, Step.flush_traced, if_pos hflush,
    ← Report.ofRun_withLog]
  exact congrArg Report.ofRun (Step.conclusion_withLog setting start m t log)

/-- A parse in which rules are evaluated to the end: it is watched until the trace is passed on. -/
theorem runRule_watched
    (h : Step.Returns capacity flushFails
      (Step.evaluation setting (evalRule setting fuel) start args)
      (Step.evaluation setting (raiseRule setting fuel) start args) s log m t log')
    (hrun : Step.evaluation setting (evalRule setting fuel) start args s = .ok m t)
    (hfits : log.Fits capacity) (hmirrors : log.Mirrors capacity flushFails seen) :
    let run (s : State V W) := Report.ofRun (runRule setting fuel start args s)
    Watched capacity (flushFails = false) (run s) (run (s.withLog log)) (run (s.withLog seen)) := by
  intro run
  have huntraced : run s = .ofRun (Step.conclusion setting start m t) := by
    show Report.ofRun _ = _
    rw [runRule_of_ok hrun, Step.bind_apply, Step.flush_untraced h.untraced]
  have hwhole : run (s.withLog log) = { run s with log := some log' } := by
    rw [huntraced]
    exact runRule_flushed h.unlimited h.continues.unlimited.flush
  obtain ⟨seen', hmirrors', hok, hcut⟩ := h.limited seen hfits hmirrors
  by_cases hfits' : log'.Fits capacity
  · cases hflush : seen'.sink.flush with
    | true =>
        have htraced : run (s.withLog seen) = { run s with log := some seen' } := by
          rw [huntraced]
          exact runRule_flushed (hok hfits') hflush
        rw [hwhole, htraced]
        exact ⟨⟨log', seen', rfl, rfl, hmirrors'.sink.bytes, fun _ _ => rfl⟩, .inl rfl⟩
    | false =>
        have hfails : flushFails = true := by
          rw [← hmirrors'.sink.flushFails]
          simpa [Sink.flush] using hflush
        have htraced : run (s.withLog seen) =
            .ofRun (.error (.error .log) (t.withLog seen') :
              EStateM.Result Failure (State V W) (Option V)) := by
          show Report.ofRun _ = _
          rw [runRule_of_ok (hok hfits'), Step.bind_apply, Step.flush_traced, hflush]
          rfl
        rw [hwhole, htraced]
        refine ⟨⟨log', seen', rfl, rfl, hmirrors'.sink.bytes, fun _ hflushed => ?_⟩, .inr rfl⟩
        rw [hfails] at hflushed
        cases hflushed
  · obtain ⟨u, hu⟩ := hcut hfits'
    have htraced : run (s.withLog seen) =
        .ofRun (.error (.error .log) (u.withLog seen') :
          EStateM.Result Failure (State V W) (Option V)) :=
      congrArg Report.ofRun (runRule_of_error hu)
    rw [hwhole, htraced]
    exact ⟨⟨log', seen', rfl, rfl, hmirrors'.sink.bytes, fun h => absurd h hfits'⟩, .inr rfl⟩

/-- A parse in which an error is raised while rules are evaluated. -/
theorem runRule_raised
    (h : Step.Breaks capacity flushFails
      (Step.evaluation setting (evalRule setting fuel) start args)
      (Step.evaluation setting (raiseRule setting fuel) start args) s log e t raised log')
    (hrun : Step.evaluation setting (evalRule setting fuel) start args s = .error e t)
    (hfits : log.Fits capacity) (hmirrors : log.Mirrors capacity flushFails seen)
    (flushed : Prop) :
    let run (s : State V W) := Report.ofRun (runRule setting fuel start args s)
    Watched capacity flushed (run s) (run (s.withLog log)) (run (s.withLog seen)) ∧
      (run s).outcome = .error e ∧
      (raised.Fits capacity → (run (s.withLog seen)).outcome = .error e) := by
  intro run
  have hbroken {s t : State V W} {e : Failure}
      (hrun : Step.evaluation setting (evalRule setting fuel) start args s = .error e t) :
      run s = .ofRun (.error e t : EStateM.Result Failure (State V W) (Option V)) :=
    congrArg Report.ofRun (runRule_of_error hrun)
  obtain ⟨seen', e', u, hmirrors', hu, hkept, hcut, hsame⟩ := h.limited seen hfits hmirrors
  rw [hbroken hrun, hbroken h.unlimited, hbroken hu]
  refine ⟨⟨⟨log', seen', rfl, rfl, hmirrors'.sink.bytes, fun hwritten _ => ?_⟩, ?_⟩, rfl,
    fun hraised => congrArg Except.error (hkept hraised)⟩
  · rw [hsame hwritten, hkept (h.closes.fits hwritten)]
    rfl
  · by_cases hraised : raised.Fits capacity
    · exact .inl (congrArg Except.error (hkept hraised))
    · exact .inr (congrArg Except.error (hcut hraised))

/-- A parse in which rules are evaluated, however that ends. -/
theorem runRule_observed (setting : Setting V W) (fuel : Nat) (start : Rule V W) (args : List V)
    (hs : s.scanner.log = none) (hlog : log.Unlimited)
    (hfits : log.Fits capacity) (hmirrors : log.Mirrors capacity flushFails seen) :
    let run (s : State V W) := Report.ofRun (runRule setting fuel start args s)
    Watched capacity (flushFails = false) (run s) (run (s.withLog log)) (run (s.withLog seen)) ∧
      ∀ e t raised, Step.evaluation setting (raiseRule setting fuel) start args (s.withLog log) =
          .error e t → t.scanner.log = some raised → raised.Fits capacity →
        (run s).outcome = .error e ∧ (run (s.withLog seen)).outcome = .error e := by
  intro run
  have hends := (Step.observed_congruence capacity flushFails setting).evaluation
    (evalRule_observed capacity flushFails setting fuel) start args s hs log hlog
  unfold Step.Ensures at hends
  split at hends
  · next m t hrun =>
    obtain ⟨log', h⟩ := hends
    refine ⟨runRule_watched h hrun hfits hmirrors, fun e t raised hraise => ?_⟩
    rw [h.raising] at hraise
    cases hraise
  · next e t hrun =>
    obtain ⟨raised, log', h⟩ := hends
    obtain ⟨hwatched, huntraced, htraced⟩ :=
      runRule_raised h hrun hfits hmirrors (flushFails = false)
    refine ⟨hwatched, fun e' t' raised' hraise hraised' hfits' => ?_⟩
    obtain ⟨u, hu⟩ := h.raising
    rw [hu] at hraise
    cases hraise
    cases hraised'
    exact ⟨huntraced, htraced hfits'⟩

end

/-- Tracing only looks on. A trace writer that takes `capacity` bytes, and then fails every write and
perhaps the flush too, receives the first bytes of the trace that an unbounded writer receives. If
neither a write nor the flush fails, the traced parse is the parse without a trace: it has the same
outcome and leaves the same notices and the same world. In any case its outcome is that of the parse
without a trace or the log error; and it is the former if that is an error raised in the evaluation of
rules at a time when no write had failed. -/
theorem parse_traced (d : Domain V W) (g : Grammar) (text : Buffer) (options : Options V)
    (world : W) (fuel lineLength capacity : Nat) (flushFails : Bool) :
    let run (log : Option TraceLog) := parseWithin fuel d g text { options with log } world
    let untraced := run none
    let whole := run (TraceLog.into .unlimited lineLength)
    let traced := run (TraceLog.into ⟨[], some capacity, flushFails⟩ lineLength)
    let flushes := ∃ start, startFor d g (settingFor d g text options) options.args = .ok start
    Watched capacity (flushes → flushFails = false) untraced whole traced ∧
      ∀ e, RaisedWithin capacity lineLength fuel d g text options world e →
        untraced.outcome = .error e ∧ traced.outcome = .error e := by
  intro run untraced whole traced flushes
  let bounded := TraceLog.into ⟨[], some capacity, flushFails⟩ lineLength
  have hmirrors := TraceLog.into_mirrors lineLength capacity flushFails
  have hrun (log : Option TraceLog) : run log = .ofRun (runGrammar d g
      (settingFor d g text options) fuel options.args (.start log world)) :=
    parseWithin_eq fuel d g text { options with log } world
  show Watched capacity (flushes → flushFails = false) (run none)
    (run (TraceLog.into .unlimited lineLength)) (run bounded) ∧
      ∀ e, _ → (run none).outcome = .error e ∧ (run bounded).outcome = .error e
  rw [hrun, hrun, hrun, runGrammar_eq]
  cases hstartFor : startFor d g (settingFor d g text options) options.args with
  | error e =>
      refine ⟨⟨⟨_, bounded, rfl, rfl, hmirrors.sink.bytes, fun _ _ => rfl⟩, .inl rfl⟩,
        fun e' hraised => ?_⟩
      obtain ⟨start, -, -, hstart, -⟩ := hraised
      rw [hstartFor] at hstart
      cases hstart
  | ok start =>
      have hstart : (State.start none world : State V W).scanner.log = none := rfl
      obtain ⟨hwatched, hraises⟩ := runRule_observed (settingFor d g text options) fuel start
        options.args hstart (TraceLog.into_unlimited lineLength)
        (TraceLog.into_fits lineLength capacity) hmirrors
      refine ⟨hwatched.imp fun hflushed => hflushed ⟨start, hstartFor⟩, fun e hraised => ?_⟩
      obtain ⟨start', t, raised, hstart, hraise, hlog, hfits⟩ := hraised
      rw [hstartFor] at hstart
      cases hstart
      exact hraises e t raised hraise hlog hfits

/-- A rule that insists on its second character. -/
def pairGrammar : GrammarDecl Unit Unit where
  name := "pairs"
  start := some "pair"
  rules := [{
    name := "pair"
    definition := .sequence (.char 'a') (.expectation (.char 'b')) }]

def pairDomain : Domain Unit Unit := Domain.build {} [pairGrammar]

def pairs : Grammar := pairDomain.grammars[0]?.get (by decide +kernel)

/-- The writer has room for the two lines that open the activation and for none that closes it, and
still the error is the one that the second character raises. -/
theorem parse_traced_pair :
    ∃ e, RaisedWithin 23 80 1 pairDomain pairs #['a', 'c'] {} () (.error e) ∧ e ≠ .log ∧
      (parseWithin 1 pairDomain pairs #['a', 'c']
        { log := TraceLog.into ⟨[], some 23, true⟩ 80 } ()).outcome = .error (.error e) := by
  have hraised : ∃ e, RaisedWithin 23 80 1 pairDomain pairs #['a', 'c'] {} () (.error e) ∧
      e ≠ .log := ⟨_, ⟨_, _, _, rfl, rfl, rfl, by decide +kernel⟩, nofun⟩
  obtain ⟨e, hwithin, hlog⟩ := hraised
  have h := parse_traced pairDomain pairs #['a', 'c'] {} () 1 80 23 true
  exact ⟨e, hwithin, hlog, (h.2 _ hwithin).2⟩

end AttrGrammar.Parse

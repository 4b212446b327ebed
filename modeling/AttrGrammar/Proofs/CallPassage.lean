import AttrGrammar.Proofs.Cutoff
import AttrGrammar.Proofs.Passage
import AttrGrammar.Proofs.TraceLines
import AttrGrammar.Proofs.WholeParse

/-! Relations between the start and the end of a run that activations keep. An activation can be
refused; it can pass unnoted because the skip rule runs; the trace may fail while it is opened or
while it is closed; and what it closes may have hit, missed or broken off. A relation that is kept
in each of these cases holds of every rule, and of the evaluation of a whole parse. -/

namespace AttrGrammar.Parse
open Text Scan Peg

variable {V W α : Type}

/-! ### Opening and closing, case by case -/

/-- The notice is about a single activation. -/
def Notice.isActivation : Notice → Bool
  | entered .. | left .. | traceUnclosed .. => true
  | _ => false

/-- What opening an activation at a place writes to the trace. -/
def openingLines (source : Source) (rule : Rule V W) (here : Position) :
    List (TraceLog → Bool × TraceLog) :=
  [(·.beginRule rule.name), (·.tryInput (source.textFrom here))]

/-- What closing an activation that began at `start` writes to the trace. -/
def closingLines (source : Source) (rule : Rule V W) (start here : Position) (m : Match) :
    List (TraceLog → Bool × TraceLog) :=
  [if m.isHit then (·.success (source.textBetween start here)) else (·.fail),
    (·.endRule rule.name)]

/-- The text that an activation matched; none after a miss. -/
def matchedText (source : Source) (start here : Position) (m : Match) : Option Slice :=
  if m.isHit then some (source.textBetween start here) else none

section

variable {log : TraceLog} (h : log.sink.room = none) (source : Source) (rule : Rule V W)
  (start here : Position) (m : Match)

include h

theorem tracing_openingLines :
    ∃ log', TraceLog.tracing (openingLines source rule here) (some log) = (true, some log') ∧
      log.Adds (TraceLog.openingText log.maxLineLength log.indent rule.name (source.textFrom here))
        log' ∧ log'.indent = log.indent + 1 :=
  TraceLog.tracing_opening h rule.name (source.textFrom here)

theorem tracing_closingLines :
    ∃ log', TraceLog.tracing (closingLines source rule start here m) (some log) =
        (true, some log') ∧
      log.Adds (TraceLog.closingText log.maxLineLength log.indent rule.name
        (matchedText source start here m)) log' ∧ log'.indent = log.indent - 1 := by
  refine TraceLog.tracing_closing h rule.name _ ?_
  cases m with
  | miss => rfl
  | hit n =>
      show log.success (source.textBetween start here) = _
      rw [TraceLog.success, TraceLog.shown_eq_echo]
      rfl

end

/-- An action of a rule in the table. -/
def Setting.Acts (setting : Setting V W) (run : ActionContext V W → ActionContext V W) : Prop :=
  ∃ (i : Nat) (rule : Rule V W) (a : Action V W) (body : LinkedParser V W),
    setting.rules[i]? = some rule ∧ .action a body ∈ rule.definition.parts ∧ a.run = run

namespace State

/-- The state in which an activation has been opened and noted. -/
def opened (s : State V W) (rule : Rule V W) (log : Option TraceLog) : State V W :=
  { s with scanner := { s.scanner with log }, depth := s.depth + 1,
           notices := .entered rule.fullName s.scanner.position :: s.notices }

/-- The state in which an activation has been closed and noted. -/
def closed (s : State V W) (rule : Rule V W) (m : Match) (log : Option TraceLog) : State V W :=
  { s with scanner := { s.scanner with log }, depth := s.depth - 1,
           notices := .left rule.fullName s.scanner.position m.isHit :: s.notices }

/-- The state with one more notice, of an activation whose trace could not be closed. -/
def unclosed (s : State V W) (rule : Rule V W) : State V W :=
  { s with notices := .traceUnclosed rule.fullName :: s.notices }

end State

namespace Step

section

variable {good : Unit → State V W → Prop} {bad : Failure → State V W → Prop} {s : State V W}

theorem ensures_trace_pair (write write' : TraceLog → Bool × TraceLog)
    (hdone : ∀ log, TraceLog.tracing [write, write'] s.scanner.log = (true, log) →
      good () (s.withLog log))
    (hcut : ∀ log, TraceLog.tracing [write, write'] s.scanner.log = (false, log) →
      bad (.error .log) (s.withLog log)) :
    (trace write).Ensures s (fun _ t => (trace write').Ensures t good bad) bad := by
  simp only [trace, ensures_bind, ensures_get]
  cases hlog : s.scanner.log with
  | none =>
      have hsame : s.withLog none = s := by rw [← hlog]; rfl
      have hgood := hdone none (by rw [hlog]; rfl)
      rw [hsame] at hgood
      simpa only [ensures_pure, hlog] using hgood
  | some log =>
      rw [hlog] at hdone hcut
      simp only [TraceLog.tracing, TraceLog.writeAll] at hdone hcut
      simp only [ensures_bind, ensures_scan, ensures_ite, ensures_pure, ensures_fail]
      split
      · next hfirst =>
        rw [if_pos hfirst] at hdone hcut
        split
        · next hsecond =>
          rw [if_pos hsecond] at hdone
          exact hdone _ rfl
        · next hsecond =>
          rw [if_neg hsecond, Bool.eq_false_iff.2 hsecond] at hcut
          exact hcut _ rfl
      · next hfirst =>
        rw [if_neg hfirst, Bool.eq_false_iff.2 hfirst] at hcut
        exact hcut _ rfl

variable (setting : Setting V W) (rule : Rule V W)

theorem ensures_enter_cases
    (hrefused : setting.Refuses s.depth → bad (.error (setting.refusal rule s)) s)
    (hsilent : s.scanner.skipping = true → good () { s with depth := s.depth + 1 })
    (hopened : ∀ log, ¬ setting.Refuses s.depth → s.scanner.skipping = false →
      TraceLog.tracing (openingLines setting.source rule s.scanner.position) s.scanner.log =
        (true, log) → good () (s.opened rule log))
    (hcut : ∀ log, s.scanner.skipping = false →
      TraceLog.tracing (openingLines setting.source rule s.scanner.position) s.scanner.log =
        (false, log) → bad (.error .log) (s.opened rule log)) :
    (enter setting rule).Ensures s good bad := by
  by_cases hrefuses : setting.Refuses s.depth
  · unfold Ensures
    rw [enter_refused rule hrefuses]
    exact hrefused hrefuses
  · unfold Ensures
    rw [enter_admitted rule hrefuses]
    show (opening setting.source rule).Ensures s good bad
    simp only [opening, ensures_bind, ensures_modify, ensures_get, ensures_ite, ensures_pure,
      ensures_place, ensures_note]
    split
    · next h => exact hsilent h
    · next h =>
      have hskipping : s.scanner.skipping = false := Bool.eq_false_iff.2 h
      exact ensures_trace_pair _ _ (fun log => hopened log hrefuses hskipping) fun log =>
        hcut log hskipping

theorem ensures_leave_cases (start : Position) (m : Match)
    (hsilent : s.scanner.skipping = true → good () { s with depth := s.depth - 1 })
    (hclosed : ∀ log, s.scanner.skipping = false →
      TraceLog.tracing (closingLines setting.source rule start s.scanner.position m)
        s.scanner.log = (true, log) → good () (s.closed rule m log))
    (hcut : ∀ log, s.scanner.skipping = false →
      TraceLog.tracing (closingLines setting.source rule start s.scanner.position m)
        s.scanner.log = (false, log) → bad (.error .log) (s.closed rule m log)) :
    (leave setting rule start m).Ensures s good bad := by
  simp only [leave, ensures_bind, ensures_modify, ensures_get, ensures_ite, ensures_pure,
    ensures_place, ensures_note]
  split
  · next h => exact hsilent h
  · next h =>
    have hskipping : s.scanner.skipping = false := Bool.eq_false_iff.2 h
    cases m with
    | hit n =>
        exact ensures_trace_pair _ _ (fun log => hclosed log hskipping)
          fun log => hcut log hskipping
    | miss =>
        exact ensures_trace_pair _ _ (fun log => hclosed log hskipping)
          fun log => hcut log hskipping

/-- Nothing is skipped, or the skip rule runs; then it is done, and what it pushed is dropped, in
the place where it ended or where it began. -/
theorem ensures_skip_cases {call : RuleId → Step V W Match} {good : Unit → State V W → Prop}
    (hidle : good () s)
    (hskip : ∀ id, s.scanner.skipping = false →
      (call id).Ensures { s with scanner := s.scanner.beginSkip }
        (fun _ t => ∀ stack, good () { t with scanner := t.scanner.endSkip, stack } ∧
          good () { State.backAt { t with scanner := t.scanner.endSkip } s.scanner.position with
            stack })
        fun e t => bad e { t with scanner := t.scanner.endSkip }) :
    (skip setting call).Ensures s good bad := by
  simp only [skip, ensures_bind, ensures_get]
  split
  · exact hidle
  · next id hactive =>
    simp only [inSkip, ensures_bind, ensures_place, ensures_height, ensures_between, ensures_ite,
      ensures_rewind, ensures_dropAbove]
    refine (hskip id (Scanner.activeSkip_eq_some.1 hactive).1).imp fun m t ht => ?_
    split
    · exact (ht _).1
    · exact (ht _).2

/-- An activation is refused, or it passes unnoted, or the trace fails at once, or its body runs and
it is closed, which the trace may still fail at. -/
theorem ensures_activate_cases {good : Match → State V W → Prop} {x : Step V W Match}
    (hrefused : setting.Refuses s.depth → bad (.error (setting.refusal rule s)) s)
    (hsilent : s.scanner.skipping = true →
      (evaluate rule s.scanner.position x).Ensures { s with depth := s.depth + 1 }
        (fun m t => t.scanner.skipping = true ∧ good m { t with depth := t.depth - 1 })
        fun e t => t.scanner.skipping = true ∧ bad e { t with depth := t.depth - 1 })
    (hunopened : ∀ log, s.scanner.skipping = false →
      TraceLog.tracing (openingLines setting.source rule s.scanner.position) s.scanner.log =
        (false, log) → bad (.error .log) (s.opened rule log))
    (hopened : ∀ log, ¬ setting.Refuses s.depth → s.scanner.skipping = false →
      TraceLog.tracing (openingLines setting.source rule s.scanner.position) s.scanner.log =
        (true, log) →
      (evaluate rule s.scanner.position x).Ensures (s.opened rule log)
        (fun m t => t.scanner.skipping = false ∧ ∀ done log', TraceLog.tracing
          (closingLines setting.source rule s.scanner.position t.scanner.position m)
            t.scanner.log = (done, log') →
          if done then good m (t.closed rule m log') else bad (.error .log) (t.closed rule m log'))
        fun e t => t.scanner.skipping = false ∧ ∀ done log', TraceLog.tracing
          (closingLines setting.source rule s.scanner.position t.scanner.position .miss)
            t.scanner.log = (done, log') →
          bad e (if done then t.closed rule .miss log'
            else (t.closed rule .miss log').unclosed rule)) :
    (activate setting rule x).Ensures s good bad := by
  simp only [activate, ensures_bind, ensures_place]
  refine ensures_enter_cases setting rule hrefused (fun hskipping => ?_)
    (fun log hadmitted hskipping hopen => ?_) hunopened
  · refine ensures_closing setting rule _ ((hsilent hskipping).mono (fun m t ht => ?_)
      fun e t ht => ?_)
    all_goals
      refine ensures_leave_cases setting rule _ _ (fun _ => ht.2) (fun _ hnot => ?_)
        fun _ hnot => ?_
      all_goals exact Bool.noConfusion (ht.1.symm.trans hnot)
  · have hbody := hopened log hadmitted hskipping hopen
    refine ensures_closing setting rule _ (hbody.mono (fun m t ht => ?_) fun e t ht => ?_)
    all_goals
      refine ensures_leave_cases setting rule _ _
        (fun hnot => Bool.noConfusion (hnot.symm.trans ht.1))
        (fun log' _ hlog => ht.2 true log' hlog) fun log' _ hlog => ht.2 false log' hlog

end

/-! ### Relations that activations keep -/

/-- A relation that the changes of frames keep, the skip, and opening and closing an activation. -/
structure CallPassage (setting : Setting V W)
    (Way : State V W → Option Failure → State V W → Prop) : Prop extends Passage setting Way where
  frame : ∀ {s t r} frame, Way s r t → Way s r { t with frame }
  act : ∀ {run}, setting.Acts run → ActsAlong setting Way run
  skipping : ∀ {s t r}, Way s r t → t.scanner.skipping = s.scanner.skipping
  inSkip : ∀ {s t r}, s.scanner.skipping = false →
    Way { s with scanner := s.scanner.beginSkip } r t →
    Way s r { t with scanner := t.scanner.endSkip }
  refused : ∀ {s} rule, setting.Refuses s.depth →
    Way s (some (.error (setting.refusal rule s))) s
  /-- An activation while the skip rule runs. -/
  silent : ∀ {s t r}, s.scanner.skipping = true → Way { s with depth := s.depth + 1 } r t →
    Way s r { t with depth := t.depth - 1 }
  /-- An activation for which the trace fails at once. -/
  unopened : ∀ {s log} rule, s.scanner.skipping = false →
    TraceLog.tracing (openingLines setting.source rule s.scanner.position) s.scanner.log =
      (false, log) → Way s (some (.error .log)) (s.opened rule log)
  /-- An activation that ended with a match, or with a failure, and could be closed. -/
  closed : ∀ {s t r log log'} rule m, s.scanner.skipping = false →
    TraceLog.tracing (openingLines setting.source rule s.scanner.position) s.scanner.log =
      (true, log) →
    Way (s.opened rule log) r t → (r ≠ none → m = .miss) →
    TraceLog.tracing (closingLines setting.source rule s.scanner.position t.scanner.position m)
      t.scanner.log = (true, log') → Way s r (t.closed rule m log')
  /-- An activation that ended with a match, but for which the trace failed then. -/
  cut : ∀ {s t log log'} rule m, s.scanner.skipping = false →
    TraceLog.tracing (openingLines setting.source rule s.scanner.position) s.scanner.log =
      (true, log) →
    Way (s.opened rule log) none t →
    TraceLog.tracing (closingLines setting.source rule s.scanner.position t.scanner.position m)
      t.scanner.log = (false, log') → Way s (some (.error .log)) (t.closed rule m log')
  /-- An activation that ended with a failure, and for which the trace failed then. -/
  unclosed : ∀ {s t e log log'} rule, s.scanner.skipping = false →
    TraceLog.tracing (openingLines setting.source rule s.scanner.position) s.scanner.log =
      (true, log) →
    Way (s.opened rule log) (some e) t →
    TraceLog.tracing (closingLines setting.source rule s.scanner.position t.scanner.position .miss)
      t.scanner.log = (false, log') →
    Way s (some e) ((t.closed rule .miss log').unclosed rule)

namespace CallPassage

variable {setting : Setting V W} {Way : State V W → Option Failure → State V W → Prop}
  {x : Step V W Match} {call : RuleId → Step V W Match} {s : State V W}

theorem modifyFrame (h : CallPassage setting Way) (f : Frame V → Frame V) :
    Along Way (Step.modifyFrame f) := fun s => h.frame _ (h.refl s)

theorem nonterminal (h : CallPassage setting Way) (rule : Rule V W) (instanceName : String)
    (args : List (Argument V)) (hx : Along Way x) :
    Along Way (Step.nonterminal rule instanceName args x) := by
  refine h.bind (h.pushArguments rule 0 args) fun _ => h.bind hx fun m => ?_
  split
  · exact h.bind (h.pop rule) fun v => h.bind (h.modifyFrame _) fun _ => h.pure m
  · exact h.pure m

theorem skip (h : CallPassage setting Way) (hcall : ∀ id, Along Way (call id)) :
    Along Way (Step.skip setting call) := by
  intro s
  refine ensures_skip_cases setting (h.refl s) fun id hskipping =>
    (hcall id _).mono (fun _ t ht stack => ?_) fun _ _ => h.inSkip hskipping
  have hskipped := h.inSkip hskipping ht
  exact ⟨h.stack stack hskipped, h.stack stack (h.rewound hskipped)⟩

theorem evaluate (h : CallPassage setting Way) (rule : Rule V W) (hx : Along Way x)
    (s : State V W) : (evaluate rule s.scanner.position x).Ensures s (fun _ t => Way s none t)
      fun e t => Way s (some e) t := by
  simp only [Step.evaluate, ensures_inFrame, ensures_bind, ensures_modifyFrame, ensures_ite,
    ensures_missAt, ensures_get, ensures_matchedSince]
  have hframe : Way s none { s with frame := .ofLocals rule.locals } := h.frame _ (h.refl s)
  refine (h.onward (h.popArguments rule _ []) hframe).mono (fun values t ht => ?_) fun _ _ =>
    h.frame _
  refine (h.onward hx (h.frame _ ht)).mono (fun m u hu => ?_) fun _ _ => h.frame _
  split
  · split
    · split
      · exact h.frame s.frame (h.stack _ (h.frame _ hu))
      · exact h.frame s.frame (h.trans (h.frame _ hu) (h.fail _ _ rfl))
    · exact h.frame _ hu
  · exact h.frame _ (h.rewound hu)

theorem activate (h : CallPassage setting Way) (rule : Rule V W) (hx : Along Way x) :
    Along Way (Step.activate setting rule x) := by
  intro s
  refine ensures_activate_cases setting rule (h.refused rule) (fun hskipping => ?_)
    (fun log => h.unopened rule) fun log _ hskipping hopened => ?_
  · exact (h.evaluate rule hx _).mono
      (fun m t ht => ⟨(h.skipping ht).trans hskipping, h.silent hskipping ht⟩)
      fun e t ht => ⟨(h.skipping ht).trans hskipping, h.silent hskipping ht⟩
  · refine (h.evaluate rule hx (s.opened rule log)).mono
      (fun m t ht => ⟨(h.skipping ht).trans hskipping, fun done log' hlog => ?_⟩)
      fun e t ht => ⟨(h.skipping ht).trans hskipping, fun done log' hlog => ?_⟩
    · cases done with
      | true => exact h.closed rule m hskipping hopened ht (absurd rfl) hlog
      | false => exact h.cut rule m hskipping hopened ht hlog
    · cases done with
      | true => exact h.closed rule .miss hskipping hopened ht (fun _ => rfl) hlog
      | false => exact h.unclosed rule hskipping hopened ht hlog

/-! ### Rules -/

theorem evalParser (h : CallPassage setting Way)
    (hread : ∀ id, Reading setting.source.text (call id)) (hcall : ∀ id, Along Way (call id))
    {p : LinkedParser V W}
    (hact : ∀ a body, .action a body ∈ p.parts → ActsAlong setting Way a.run) :
    Along Way (Parse.evalParser setting call p) := by
  refine h.toPassage.evalParser hread (h.skip hcall) ⟨fun _ rule _ => h.lookAhead (hcall rule.id),
    fun rule instanceName args _ => ?_, hact⟩
  rw [Parse.evalParser]
  split
  · exact h.nonterminal _ instanceName args (hcall rule.id)
  · exact h.failing rfl

/-- The tree of a rule in the table. -/
theorem evalDefinition (h : CallPassage setting Way)
    (hread : ∀ id, Reading setting.source.text (call id)) (hcall : ∀ id, Along Way (call id))
    {i : Nat} {rule : Rule V W} (hrule : setting.rules[i]? = some rule) :
    Along Way (Parse.evalParser setting call rule.definition) :=
  h.evalParser hread hcall fun a body hpart => h.act ⟨i, rule, a, body, hrule, hpart, rfl⟩

theorem evalRule (h : CallPassage setting Way) (fuel : Nat) (id : RuleId) :
    Along Way (Parse.evalRule setting fuel id) := by
  induction fuel generalizing id with
  | zero => exact h.exhausted
  | succ fuel ih =>
      rw [Parse.evalRule]
      split
      · next rule hrule =>
        exact h.activate rule (h.evalDefinition (evalRule_reading setting fuel) ih hrule)
      · exact h.failing rfl

theorem startCalling (h : CallPassage setting Way) (hcall : ∀ id, Along Way (call id))
    (start : RuleId) : Along Way (Step.startCalling setting call start) := by
  refine h.bind (h.skip hcall) fun _ => h.bind (hcall start) fun m => ?_
  split
  · exact h.bind (h.skip hcall) fun _ => h.pure m
  · exact h.pure m

end CallPassage

end Step

/-! ### Whole parses -/

/-- The state in which rules begin to be evaluated: the parse has been noted, and the arguments of
the start rule lie on the stack. -/
def State.begun (setting : Setting V W) (start : Rule V W) (args : List V) (s : State V W) :
    State V W :=
  let notice := .parsing setting.source.fileName start.fullName setting.source.text.size
  { s with stack := ⟨args.reverse ++ s.stack.values⟩, notices := notice :: s.notices }

/-- The notice with which a parse ends, if nothing ended it before. -/
def endNotice (setting : Setting V W) (s : State V W) (parsed : Bool) : Notice :=
  if parsed then .parsed setting.source.fileName
  else .stopped setting.source.fileName s.scanner.cursor.farthest

/-- The error of a parse that did not match the whole input. -/
def stopError (setting : Setting V W) (start : Rule V W) (s : State V W) : ParseError :=
  .expectation start.info (setting.location
    (setting.source.span s.scanner.cursor.farthest s.scanner.cursor.farthest))

namespace Step

variable {setting : Setting V W} {Way : State V W → Option Failure → State V W → Prop}
  {s : State V W} {start : Rule V W} {args : List V}

theorem ensures_evaluation {good : Match → State V W → Prop} {bad : Failure → State V W → Prop}
    {call : RuleId → Step V W Match} :
    (evaluation setting call start args).Ensures s good bad ↔
      (startCalling setting call start.id).Ensures (s.begun setting start args) good bad := by
  rw [evaluation, ensures_bind, ensures_note, ensures_bind, ensures_pushAll]
  rfl

theorem ensures_flush {good : Unit → State V W → Prop} {bad : Failure → State V W → Prop}
    (hgood : good () s) (hbad : bad (.error .log) s) : flush.Ensures s good bad := by
  simp only [flush, ensures_bind, ensures_get]
  split
  · simp only [ensures_ite, ensures_pure, ensures_fail]
    split
    · exact hgood
    · exact hbad
  · exact hgood

/-- A trace that can be passed on is left as it is. -/
theorem ensures_flush_iff {good : Unit → State V W → Prop} {bad : Failure → State V W → Prop}
    (h : ∀ log, s.scanner.log = some log → log.sink.flush = true) :
    flush.Ensures s good bad ↔ good () s := by
  simp only [flush, ensures_bind, ensures_get]
  split
  · next log hlog =>
    rw [h log hlog]
    exact Iff.rfl
  · exact Iff.rfl

theorem ensures_conclusion {good : Option V → State V W → Prop} {bad : Failure → State V W → Prop}
    {m : Match}
    (hparsed : ∀ v, good v { s with notices := endNotice setting s true :: s.notices })
    (hstopped : bad (.error (stopError setting start s))
      { s with notices := endNotice setting s false :: s.notices }) :
    (conclusion setting start m).Ensures s good bad := by
  simp only [conclusion, ensures_bind, ensures_get, ensures_ite, ensures_note, ensures_pure]
  split
  · split
    · exact hparsed _
    · exact hparsed _
  · exact hstopped

/-- A parse cannot begin, or its evaluation breaks off, or the trace cannot be passed on behind it,
or it has or has not matched the whole input. -/
theorem CallPassage.runGrammar (h : CallPassage setting Way) {good : Option V → State V W → Prop}
    {bad : Failure → State V W → Prop} (d : Domain V W) (g : Grammar) (fuel : Nat)
    (hfail : ∀ e, startFor d g setting args = .error e → bad (.error e) s)
    (hbroken : ∀ start e t, startFor d g setting args = .ok start →
      Way (s.begun setting start args) (some e) t → bad e t)
    (hended : ∀ start t, startFor d g setting args = .ok start →
      Way (s.begun setting start args) none t →
      bad (.error .log) t ∧
      (∀ v, good v { t with notices := endNotice setting t true :: t.notices }) ∧
      bad (.error (stopError setting start t))
        { t with notices := endNotice setting t false :: t.notices }) :
    (Parse.runGrammar d g setting fuel args).Ensures s good bad := by
  rw [runGrammar_eq]
  cases hstart : startFor d g setting args with
  | error e => exact hfail e hstart
  | ok start =>
      dsimp only
      rw [runRule_eq, ensures_bind, ensures_evaluation]
      refine (h.startCalling (h.evalRule fuel) start.id _).mono (fun m t ht => ?_) fun e t =>
        hbroken start e t hstart
      obtain ⟨hlog, hparsed, hstopped⟩ := hended start t hstart ht
      rw [ensures_bind]
      exact ensures_flush (ensures_conclusion hparsed hstopped) hlog

end Step

/-- The state in which a run ends or breaks off. -/
def Ending.state (r : EStateM.Result Failure (State V W) α) : State V W :=
  match r with
  | .ok _ t => t
  | .error _ t => t

/-- What holds of the report of a run, and of the state it ends in, is what the run ensures. -/
theorem Report.of_ensures {x : Step V W α} {s : State V W} {P : Report α W → State V W → Prop}
    (h : x.Ensures s (fun v t => P ⟨.ok v, t.scanner.log, t.notices.reverse, t.world⟩ t)
      fun e t => P ⟨.error e, t.scanner.log, t.notices.reverse, t.world⟩ t) :
    P (.ofRun (x s)) (Ending.state (x s)) := by
  unfold Step.Ensures at h
  unfold Report.ofRun Ending.state
  cases hx : x s <;> rw [hx] at h <;> exact h

end AttrGrammar.Parse

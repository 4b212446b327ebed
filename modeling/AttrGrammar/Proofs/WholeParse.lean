import AttrGrammar.Proofs.StackDiscipline

/-! Whole parses. The arguments of the start rule are pushed before the leading run of the skip rule,
and its value lies on the stack during the trailing one. Since neither run touches what lies there,
the start rule finds its arguments and the parse returns its value. -/

namespace AttrGrammar.Parse
open Text Scan Peg

variable {V W α : Type}

namespace Step

variable {good : α → State V W → Prop} {bad : Failure → State V W → Prop} {s : State V W}

/-- Pushing some values leaves the last one on the top. -/
theorem ensures_pushAll {good : Unit → State V W → Prop} (args : List V) :
    (args.forM push : Step V W Unit).Ensures s good bad ↔
      good () (s.owning (args.reverse ++ s.stack.values)) := by
  induction args generalizing s with
  | nil => rfl
  | cons v args ih =>
      show (push v >>= fun _ => args.forM push).Ensures s good bad ↔ _
      rw [ensures_bind, ensures_push, ih, List.reverse_cons, List.append_assoc]
      rfl

/-- Passing the trace on changes nothing, and fails with the log error only. -/
theorem ensures_flushing {x : Step V W α} (hx : x.Ensures s good bad)
    (hbad : ∀ t, bad (.error .log) t) : (flushing x).Ensures s good bad := by
  simp only [flushing, ensures_bind, ensures_get]
  refine hx.imp fun a t ht => ?_
  split
  · simp only [ensures_bind, ensures_ite, ensures_pure, ensures_fail]
    split
    · exact ht
    · exact hbad t
  · exact ht

end Step

/-! ### The start rule between two skips -/

/-- The run of a start rule: the leading skip goes from `s` to `before`, and the activation goes from
there to `after` and ends with the match `m`. -/
structure StartRun (setting : Setting V W) (fuel : Nat) (start : Rule V W) (s : State V W)
    (m : Match) (before after : State V W) : Prop where
  skip : Step.skip setting (evalRule setting fuel) s = .ok () before
  stack : before.stack = s.stack
  run : evalRule setting fuel start.id before = .ok m after

variable {setting : Setting V W} {start : Rule V W} {args : List V} {s : State V W}

theorem runStart_ensures (htable : LinkedTable setting.rules)
    (hskip : ∀ id, setting.skipRule = some id → arity? setting.rules id = some 0)
    (hstart : setting.rules[start.id.index]? = some start)
    (hlength : args.length = start.inherited.length) (hstack : s.stack.values = args.reverse)
    (fuel : Nat) :
    (runStart setting fuel start.id).Ensures s
      (fun m t => ∃ before after, StartRun setting fuel start s m before after ∧
        (m.isHit → t.stack = after.stack))
      fun e _ => ¬ e.Internal := by
  have hcall := evalRule_framed htable hskip fuel
  have hgap : Step.Neutral (Step.skip setting (evalRule setting fuel)) :=
    .skip setting fun id hid => framed_of_arity hcall (hskip id hid)
  simp only [runStart, Step.ensures_bind, Step.ensures_ite, Step.ensures_pure]
  refine ((Step.Neutral.ensures hgap s).and (Step.ensures_self _ s)).mono
    (fun _ before h => ?_) fun _ _ h => h.1
  obtain ⟨hbefore, hlead⟩ := h
  have hargs : before.stack.values = args.reverse ++ [] := by
    rw [hbefore, hstack, List.append_nil]
  have hrule := (hcall start.id start hstart).ensures
    (by rw [List.length_reverse, hlength]) hargs
  refine (hrule.and (Step.ensures_self _ before)).mono (fun m after h => ?_) fun _ _ h => h.1
  obtain ⟨-, hrun⟩ := h
  have hstartRun : StartRun setting fuel start s m before after := ⟨hlead, hbefore, hrun⟩
  split
  · exact (Step.Neutral.ensures hgap after).imp fun _ t ht => ⟨before, after, hstartRun, fun _ => ht⟩
  · next hmiss => exact ⟨before, after, hstartRun, fun hhit => absurd hhit hmiss⟩

/-- The value that a start rule synthesizes on some arguments, from a state in which they have been
pushed: behind the leading skip its activation hits, and the value is the one that its tree leaves in
the frame, if the rule declares one. -/
def Synthesizes (setting : Setting V W) (fuel : Nat) (start : Rule V W) (args : List V)
    (s : State V W) (r : Option V) : Prop :=
  ∃ n before after, StartRun setting fuel start s (.hit n) before after ∧
    ∃ nesting entry inner exit, fuel = nesting + 1 ∧
      InnerRun start (evalParser setting (evalRule setting nesting) start.definition) args []
        before (.hit n) after entry inner exit ∧
      r = if start.hasValue then exit.frame.value else none

/-- After a hit the value that the tree left in its frame lies on the top of the stack. -/
theorem InnerRun.peek?_eq {tree : Step V W Match} {below : List V} {n : Nat} {inner : Match}
    {t entry exit : State V W} (h : InnerRun start tree args below s (.hit n) t entry inner exit)
    (hvalue : start.hasValue) : t.stack.peek? = exit.frame.value ∧ exit.frame.value.isSome := by
  have hpushed := h.value
  rw [Match.isHit_hit, hvalue, Bool.true_and, if_pos rfl] at hpushed
  obtain ⟨v, hv, hstack⟩ := hpushed
  rw [hv, hstack]
  exact ⟨rfl, rfl⟩

/-- A parse with a start rule breaks off for no internal reason, and what it returns is what the start
rule synthesizes. -/
theorem runRule_ensures (htable : LinkedTable setting.rules)
    (hskip : ∀ id, setting.skipRule = some id → arity? setting.rules id = some 0)
    (hstart : setting.rules[start.id.index]? = some start)
    (hlength : args.length = start.inherited.length) (hstack : s.stack.values = []) (fuel : Nat) :
    (runRule setting fuel start args).Ensures s
      (fun r _ => r.isSome = start.hasValue ∧ ∃ pushed : State V W,
        pushed.scanner = s.scanner ∧ pushed.world = s.world ∧
        pushed.stack.values = args.reverse ∧ Synthesizes setting fuel start args pushed r)
      fun e _ => ¬ e.Internal := by
  simp only [runRule, Step.ensures_bind, Step.ensures_note, Step.ensures_pushAll]
  generalize hstate : State.owning _ (args.reverse ++ s.stack.values) = pushed
  have hscanner : pushed.scanner = s.scanner := by
    rw [← hstate]
    rfl
  have hworld : pushed.world = s.world := by
    rw [← hstate]
    rfl
  have hpushed : pushed.stack.values = args.reverse := by
    rw [← hstate, hstack, List.append_nil]
    rfl
  refine Step.ensures_flushing (.mono (runStart_ensures htable hskip hstart hlength hpushed fuel)
    (fun m t h => ?_) fun _ _ h => h) fun _ => id
  obtain ⟨before, after, hrun, hreturn⟩ := h
  simp only [Step.ensures_bind, Step.ensures_get, Step.ensures_ite, Step.ensures_note,
    Step.ensures_pure, Step.failExpecting, Step.ensures_fail]
  split
  · next hwhole =>
    cases m with
    | miss => cases hwhole
    | hit n =>
        have hargs : before.stack.values = args.reverse ++ [] := by
          rw [hrun.stack, List.append_nil]
          exact hpushed
        obtain ⟨nesting, entry, inner, exit, hfuel, hinner⟩ :=
          (evalRule_ensures fuel hstart hlength hargs).of_ok hrun.run
        have hsynthesizes : Synthesizes setting fuel start args pushed
            (if start.hasValue then exit.frame.value else none) :=
          ⟨n, before, after, hrun, nesting, entry, inner, exit, hfuel, hinner, rfl⟩
        split
        · next hvalue =>
          obtain ⟨hpeek, hsome⟩ := hinner.peek?_eq hvalue
          rw [if_pos hvalue, ← hpeek, ← hreturn rfl] at hsynthesizes
          rw [← hpeek, ← hreturn rfl] at hsome
          exact ⟨hsome.trans hvalue.symm, pushed, hscanner, hworld, hpushed, hsynthesizes⟩
        · next hvalue =>
          rw [if_neg hvalue] at hsynthesizes
          exact ⟨(Bool.eq_false_iff.2 hvalue).symm, pushed, hscanner, hworld, hpushed,
            hsynthesizes⟩
  · exact id

/-- What is known of a parse with a grammar that returned something. -/
def ReturnsValue (fuel : Nat) (d : Domain V W) (g : Grammar) (text : Buffer) (options : Options V)
    (world : W) (r : Option V) : Prop :=
  ∃ start, g.startRule.bind d.rule? = some start ∧ r.isSome = start.hasValue ∧
    ∃ pushed : State V W, pushed.scanner = .start options.log ∧ pushed.world = world ∧
      pushed.stack.values = options.args.reverse ∧
      Synthesizes (settingFor d g text options) fuel start options.args pushed r

theorem runGrammar_ensures {d : Domain V W} (hd : d.Linked) (hsize : d.rules.size < UInt32.size)
    {g : Grammar} (hg : g ∈ d.grammars) (text : Buffer) (options : Options V) (world : W)
    (fuel : Nat) :
    (runGrammar d g (settingFor d g text options) fuel options.args).Ensures
      (.start options.log world) (fun r _ => ReturnsValue fuel d g text options world r)
      fun e _ => ¬ e.Internal := by
  have hrun (start : Rule V W) (h : g.startRule.bind d.rule? = some start)
      (hlength : options.args.length = start.inherited.length) :
      (runRule (settingFor d g text options) fuel start options.args).Ensures
        (.start options.log world) (fun r _ => ReturnsValue fuel d g text options world r)
        fun e _ => ¬ e.Internal := by
    obtain ⟨id, -, hid⟩ := Option.bind_eq_some_iff.1 h
    have hindex : start.id.index = id.index := by
      rw [hd.place id.index start hid, RuleId.index_ofNat]
      exact Nat.lt_trans (Array.getElem?_eq_some_iff.1 hid).1 hsize
    have hstart : d.rules[start.id.index]? = some start := by rwa [hindex]
    exact (runRule_ensures hd.table (hd.skipRule g hg) hstart hlength rfl fuel).imp
      fun r _ hr => ⟨start, h, hr⟩
  simp only [runGrammar]
  split
  · exact id
  · cases h : g.startRule.bind d.rule? with
    | none => exact id
    | some start =>
        simp only [Step.ensures_ite]
        split
        · next hlength => exact hrun start h hlength
        · exact id

theorem parseWithin_ok {fuel : Nat} {d : Domain V W} {g : Grammar} {text : Buffer}
    {options : Options V} {world : W} {r : Option V}
    (h : (parseWithin fuel d g text options world).outcome = .ok r) :
    ∃ t, runGrammar d g (settingFor d g text options) fuel options.args
      (.start options.log world) = .ok r t := by
  unfold parseWithin at h
  dsimp only at h
  split at h
  · next v t hrun =>
    cases h
    exact ⟨t, hrun⟩
  · cases h

theorem parseWithin_error {fuel : Nat} {d : Domain V W} {g : Grammar} {text : Buffer}
    {options : Options V} {world : W} {e : Failure}
    (h : (parseWithin fuel d g text options world).outcome = .error e) :
    ∃ t, runGrammar d g (settingFor d g text options) fuel options.args
      (.start options.log world) = .error e t := by
  unfold parseWithin at h
  dsimp only at h
  split at h
  · cases h
  · next e' t hrun =>
    cases h
    exact ⟨t, hrun⟩

/-- A parse with a grammar of a domain that can be built never breaks off because a rule could not be
found or a value was missing on the stack, and its start and skip rules are in the rule table. What
it returns is what its start rule synthesizes on the arguments given, and that is a value exactly if
the start rule declares one. -/
theorem parse_synthesizes (config : Config) (decls : List (GrammarDecl V W)) (g : Grammar)
    (hsize : (Domain.build config decls).rules.size < UInt32.size)
    (hg : g ∈ (Domain.build config decls).grammars) (text : Buffer) (options : Options V)
    (world : W) (fuel : Nat) :
    let d := Domain.build config decls
    let outcome := (parseWithin fuel d g text options world).outcome
    (∀ id, g.startRule = some id ∨ g.skipRule = some id → id.index < d.rules.size) ∧
    (∀ failure, outcome = .error failure → ¬ failure.Internal) ∧
    ∀ r, outcome = .ok r → ReturnsValue fuel d g text options world r := by
  intro d outcome
  have hlinked : d.Linked := Domain.linked_build config decls hsize
  have hplace (id : RuleId) (n : Nat) (h : arity? d.rules id = some n) :
      id.index < d.rules.size := by
    obtain ⟨rule, hrule, -⟩ := arity?_eq_some.1 h
    exact (Array.getElem?_eq_some_iff.1 hrule).1
  refine ⟨fun id hid => ?_, fun failure hfailure => ?_, fun r hr => ?_⟩
  · rcases hid with hstart | hskip
    · obtain ⟨n, hn⟩ := hlinked.startRule g hg id hstart
      exact hplace id n hn
    · exact hplace id 0 (hlinked.skipRule g hg id hskip)
  · obtain ⟨t, hx⟩ := parseWithin_error hfailure
    exact (runGrammar_ensures hlinked hsize hg text options world fuel).of_error hx
  · obtain ⟨t, hx⟩ := parseWithin_ok hr
    exact (runGrammar_ensures hlinked hsize hg text options world fuel).of_ok hx

/-- A start rule that returns the attribute it inherits, and a skip rule that returns a value too. -/
def spacedGrammar : GrammarDecl Nat Unit where
  name := "spaced"
  start := some "copy"
  skip := some "blank"
  rules := [
    { name := "copy"
      definition := .action "copy" .anyChar
      valueType := some "Nat"
      inherited := ["x"]
      actions := [⟨"copy", fun ctx =>
        match ctx.frame.inherited? "x" with
        | some v => ctx.setValue v
        | none => ctx⟩] },
    { name := "blank"
      definition := .action "zero" (.char ' ')
      valueType := some "Nat"
      actions := [⟨"zero", fun ctx => ctx.setValue 0⟩] }]

def spacedDomain : Domain Nat Unit := Domain.build {} [spacedGrammar]

def spaced : Grammar := spacedDomain.grammars[0]?.get (by decide +kernel)

theorem ok_of_toOption {ε : Type} {x : Except ε α} {a : α} (h : x.toOption = some a) :
    x = .ok a := by
  cases x with
  | ok b => exact congrArg Except.ok (Option.some.inj h)
  | error e => cases h

/-- The value returned is the argument, although a blank is skipped, and leaves a value, on either
side of the start rule. -/
theorem parse_synthesizes_spaced :
    spaced ∈ spacedDomain.grammars ∧
      ReturnsValue 2 spacedDomain spaced #[' ', 'a', ' '] { args := [7] } () (some 7) := by
  have hsize : spacedDomain.rules.size < UInt32.size := by decide +kernel
  have hg : spaced ∈ spacedDomain.grammars := Array.mem_of_getElem? (Option.some_get _).symm
  have h := parse_synthesizes {} [spacedGrammar] spaced hsize hg #[' ', 'a', ' ']
    { args := [7] } () 2
  exact ⟨hg, h.2.2 (some 7) (ok_of_toOption (by decide +kernel))⟩

end AttrGrammar.Parse

import AttrGrammar.Proofs.CallPassage

/-! How many activations stay open. Whatever ends an activation, token groups are closed behind it
and the skip rule is no longer running, unless it ran before. The count of open activations goes up
with each notice that one has been entered and down with each notice that one has been left. The two
come in pairs, with one exception: where the trace fails as an activation is being entered, that
activation has been counted already, and since it never begins it is never left. -/

namespace AttrGrammar.Parse
open Text Scan Peg

variable {V W : Type}

namespace Notice

/-- The notice tells that an activation has been entered. -/
def isEntry : Notice → Bool
  | entered .. => true
  | _ => false

/-- The notice tells that an activation has been left. -/
def isExit : Notice → Bool
  | left .. => true
  | _ => false

end Notice

/-- There is a trace, and its sink may run out of room. -/
def BoundedTrace (log : Option TraceLog) : Prop := ∃ l, log = some l ∧ l.sink.room ≠ none

/-- From `s` to `t` everything has been closed that was opened, except perhaps for one activation
for which the trace failed. -/
structure Closes (s : State V W) (r : Option Failure) (t : State V W) : Prop where
  tokenDepth : t.scanner.tokenDepth = s.scanner.tokenDepth
  skipping : t.scanner.skipping = s.scanner.skipping
  noted : ∃ new, t.notices = new ++ s.notices ∧
    t.depth + new.countP Notice.isExit = s.depth + new.countP Notice.isEntry
  depth : t.depth = s.depth ∨
    t.depth = s.depth + 1 ∧ r = some (.error .log) ∧ BoundedTrace s.scanner.log
  bounded : BoundedTrace t.scanner.log → BoundedTrace s.scanner.log

variable {s t u : State V W} {r : Option Failure}

theorem Closes.refl (s : State V W) (r : Option Failure) : Closes s r s :=
  ⟨rfl, rfl, ⟨[], rfl, rfl⟩, .inl rfl, id⟩

/-- A run that came to its end closed everything. -/
theorem Closes.depth_eq (h : Closes s none t) : t.depth = s.depth := by
  obtain hdepth | ⟨-, hnone, -⟩ := h.depth
  · exact hdepth
  · cases hnone

theorem Closes.broken (h : Closes s none t) (r : Option Failure) : Closes s r t :=
  ⟨h.tokenDepth, h.skipping, h.noted, .inl h.depth_eq, h.bounded⟩

theorem Closes.trans (h : Closes s none t) (h' : Closes t r u) : Closes s r u := by
  obtain ⟨new, hnew, hcount⟩ := h.noted
  obtain ⟨new', hnew', hcount'⟩ := h'.noted
  refine ⟨h'.tokenDepth.trans h.tokenDepth, h'.skipping.trans h.skipping, ⟨new' ++ new, ?_, ?_⟩,
    ?_, h.bounded ∘ h'.bounded⟩
  · rw [hnew', hnew, List.append_assoc]
  · rw [List.countP_append, List.countP_append]
    omega
  · rw [← h.depth_eq]
    exact h'.depth.imp_right fun hopen => ⟨hopen.1, hopen.2.1, h.bounded hopen.2.2⟩

/-! ### The trace -/

/-- Only a bounded trace fails, and only a bounded one is bounded afterwards. -/
theorem bounded_of_tracing {lines : List (TraceLog → Bool × TraceLog)} {log log' : Option TraceLog}
    {done : Bool}
    (hlines : ∀ l, l.sink.room = none → ∃ l', TraceLog.tracing lines (some l) = (true, some l') ∧
      l'.sink.room = none)
    (h : TraceLog.tracing lines log = (done, log')) (hbounded : done = false ∨ BoundedTrace log') :
    BoundedTrace log := by
  cases log with
  | none =>
      cases h
      obtain hdone | ⟨l, hnone, -⟩ := hbounded
      · cases hdone
      · cases hnone
  | some l =>
      refine ⟨l, rfl, fun hroom => ?_⟩
      obtain ⟨l', hwritten, hroom'⟩ := hlines l hroom
      obtain ⟨rfl, rfl⟩ := Prod.mk.inj (hwritten.symm.trans h)
      obtain hdone | ⟨l, hsome, hbounded⟩ := hbounded
      · cases hdone
      · cases hsome
        exact hbounded hroom'

section

variable {source : Source} {rule : Rule V W} {start here : Position} {m : Match}
  {log log' : Option TraceLog} {done : Bool}

theorem bounded_of_opening
    (h : TraceLog.tracing (openingLines source rule here) log = (done, log'))
    (hbounded : done = false ∨ BoundedTrace log') : BoundedTrace log := by
  refine bounded_of_tracing (fun l hroom => ?_) h hbounded
  obtain ⟨l', hwritten, hadds, -⟩ := tracing_openingLines hroom source rule here
  exact ⟨l', hwritten, hadds.room⟩

theorem bounded_of_closing
    (h : TraceLog.tracing (closingLines source rule start here m) log = (done, log'))
    (hbounded : done = false ∨ BoundedTrace log') : BoundedTrace log := by
  refine bounded_of_tracing (fun l hroom => ?_) h hbounded
  obtain ⟨l', hwritten, hadds, -⟩ := tracing_closingLines hroom source rule start here m
  exact ⟨l', hwritten, hadds.room⟩

/-! ### Activations -/

variable {setting : Setting V W}

/-- An activation that has been entered and left, the trace failing or not. -/
theorem Closes.left
    (hopened : TraceLog.tracing (openingLines setting.source rule s.scanner.position)
      s.scanner.log = (true, log))
    (h : Closes (s.opened rule log) r t)
    (hclosed : TraceLog.tracing (closingLines setting.source rule s.scanner.position
      t.scanner.position m) t.scanner.log = (done, log')) :
    Closes s r (t.closed rule m log') ∧
      (done = false → Closes s r ((t.closed rule m log').unclosed rule)) := by
  obtain ⟨new, hnew, hcount⟩ := h.noted
  have hdepth := h.depth
  change t.depth + _ = s.depth + 1 + _ at hcount
  change t.depth = s.depth + 1 ∨ t.depth = s.depth + 1 + 1 ∧ _ ∧ BoundedTrace log at hdepth
  have hbefore : BoundedTrace log → BoundedTrace s.scanner.log := fun hlog =>
    bounded_of_opening hopened (.inr hlog)
  -- What the activation adds to the count it takes away again; what its body left open stays open.
  have hleft : Closes s r (t.closed rule m log') := by
    refine ⟨h.tokenDepth, h.skipping, ⟨.left rule.fullName t.scanner.position m.isHit :: new ++
      [.entered rule.fullName s.scanner.position], ?_, ?_⟩, ?_, fun hlog => ?_⟩
    · simp only [State.closed, hnew, State.opened, List.cons_append, List.append_assoc,
        List.nil_append]
    · simp only [State.closed, List.countP_append, List.countP_cons, List.countP_nil,
        Notice.isEntry, Notice.isExit, if_true, Bool.false_eq_true, if_false]
      omega
    · show t.depth - 1 = _ ∨ t.depth - 1 = _ ∧ _
      exact hdepth.imp (by omega) fun hopen => ⟨by omega, hopen.2.1, hbefore hopen.2.2⟩
    · exact hbefore (h.bounded (bounded_of_closing hclosed (.inr hlog)))
  refine ⟨hleft, fun _ => ?_⟩
  obtain ⟨new, hnew, hcount⟩ := hleft.noted
  refine ⟨hleft.tokenDepth, hleft.skipping, ⟨.traceUnclosed rule.fullName :: new, ?_, ?_⟩,
    hleft.depth, hleft.bounded⟩
  · simp only [State.unclosed, hnew, List.cons_append]
  · simp only [List.countP_cons, Notice.isEntry, Notice.isExit, Bool.false_eq_true, if_false]
    exact hcount

end

/-- Where the cursor stands makes no difference. -/
theorem Closes.moved (h : Closes s r t) (f g : Cursor → Cursor) :
    Closes { s with scanner := s.scanner.mapCursor f } r
      { t with scanner := t.scanner.mapCursor g } :=
  ⟨h.tokenDepth, h.skipping, h.noted, h.depth, h.bounded⟩

theorem closes_passage (setting : Setting V W) :
    Step.CallPassage setting (Closes : State V W → Option Failure → State V W → Prop) where
  refl s := .refl s none
  trans := .trans
  exhausted s := .refl s _
  fail s _ _ := .refl s _
  unexpected _ h _ := h.broken _
  advance s := (Closes.refl s none).moved id _
  rewound h := h.moved id _
  recross h h' := h.trans (h'.moved (fun _ => _) _)
  inToken h := by
    refine ⟨?_, h.skipping, h.noted, h.depth, h.bounded⟩
    show _ - 1 = _
    rw [h.tokenDepth]
    rfl
  stack _ h := ⟨h.tokenDepth, h.skipping, h.noted, h.depth, h.bounded⟩
  frame _ h := ⟨h.tokenDepth, h.skipping, h.noted, h.depth, h.bounded⟩
  act _ := ⟨fun h _ => ⟨h.tokenDepth, h.skipping, h.noted, h.depth, h.bounded⟩,
    fun h _ _ => ⟨h.tokenDepth, h.skipping, h.noted, .inl h.depth_eq, h.bounded⟩⟩
  skipping h := h.skipping
  inSkip hskipping h := ⟨h.tokenDepth, hskipping.symm, h.noted, h.depth, h.bounded⟩
  refused _ _ := .refl _ _
  silent := by
    intro s t r _ h
    obtain ⟨new, hnew, hcount⟩ := h.noted
    have hdepth := h.depth
    change t.depth + _ = s.depth + 1 + _ at hcount
    change t.depth = s.depth + 1 ∨ t.depth = s.depth + 1 + 1 ∧ _ at hdepth
    refine ⟨h.tokenDepth, h.skipping, ⟨new, hnew, ?_⟩, ?_, h.bounded⟩
    · dsimp only
      omega
    · exact hdepth.imp (fun heq => by dsimp only; omega) fun hopen =>
        ⟨by dsimp only; omega, hopen.2⟩
  unopened := by
    intro s log rule _ hcut
    refine ⟨rfl, rfl, ⟨[_], rfl, rfl⟩, .inr ⟨rfl, rfl, ?_⟩, fun hlog => ?_⟩
    · exact bounded_of_opening hcut (.inl rfl)
    · exact bounded_of_opening hcut (.inl rfl)
  closed _ _ _ hopened h _ hclosed := (h.left hopened hclosed).1
  cut _ _ _ hopened h hclosed := (h.left hopened hclosed).1.broken _
  unclosed _ _ hopened h hclosed := (h.left hopened hclosed).2 rfl

/-- However the activation of a rule ends, and wherever the trace fails, token groups and the skip
are as before, and of the activations entered meanwhile as many are still open as have not been
left. That is none at all after a hit or a miss, and none after an error, unless the error is that
the trace could not be written: then one may be open, and only if the sink of the trace has a bound.
-/
theorem evalRule_levels (setting : Setting V W) (fuel : Nat) (id : RuleId) (s : State V W) :
    (evalRule setting fuel id).Ensures s (fun _ t => t.level = s.level) fun e t =>
      t.scanner.tokenDepth = s.scanner.tokenDepth ∧ t.scanner.skipping = s.scanner.skipping ∧
      (∃ new, t.notices = new ++ s.notices ∧
        t.depth + new.countP Notice.isExit = s.depth + new.countP Notice.isEntry) ∧
      (t.depth = s.depth ∨
        t.depth = s.depth + 1 ∧ e = .error .log ∧ BoundedTrace s.scanner.log) := by
  refine ((closes_passage setting).evalRule fuel id s).mono (fun m t ht => ?_) fun e t he => ?_
  · exact State.level_eq_iff.2 ⟨ht.depth_eq, ht.tokenDepth, ht.skipping⟩
  · exact ⟨he.tokenDepth, he.skipping, he.noted, he.depth.imp_right fun hopen =>
      ⟨hopen.1, Option.some.inj hopen.2.1, hopen.2.2⟩⟩

/-- Two rules: the first one reads an `a` and calls the second one, which insists on a `b`. -/
def insistingSetting : Setting Unit Unit :=
  ⟨#[⟨⟨0⟩, "A", "G.A", "A", .sequence (.char 'a') (.nonterminal ⟨"B", ⟨1⟩⟩ "B" []), none, [], [], []⟩,
    ⟨⟨1⟩, "B", "G.B", "B", .expectation (.char 'b'), none, [], [], []⟩],
    ⟨#['a', 'x'], 0, ""⟩, none, 0⟩

/-- An error inside two activations leaves none of them open. If the trace has room for the lines of
the first one only, the second one stays open. -/
theorem evalRule_levels_insisting :
    let run (log : Option TraceLog) := evalRule insistingSetting 2 ⟨0⟩ (.start log ())
    (∃ e t, run none = .error e t ∧ t.notices.countP Notice.isEntry = 2 ∧ t.depth = 0) ∧
    ∃ t, run (some (.into (.limited 20) 80)) = .error (.error .log) t ∧
      t.notices.countP Notice.isEntry = 2 ∧ t.notices.countP Notice.isExit = 1 ∧ t.depth = 1 := by
  intro run
  have hlevels (log : Option TraceLog) := evalRule_levels insistingSetting 2 ⟨0⟩ (.start log ())
  constructor
  · obtain ⟨-, -, -, hdepth⟩ := (hlevels none).of_error rfl
    exact ⟨_, _, rfl, rfl, hdepth.resolve_right fun hopen => nomatch hopen.2.1⟩
  · obtain ⟨t, hrun, hentries, hexits⟩ : ∃ t,
        run (some (.into (.limited 20) 80)) = .error (.error .log) t ∧
          t.notices.countP Notice.isEntry = 2 ∧ t.notices.countP Notice.isExit = 1 :=
      ⟨_, rfl, rfl, rfl⟩
    obtain ⟨-, -, ⟨new, hnew, hcount⟩, -⟩ := (hlevels _).of_error hrun
    obtain rfl : t.notices = new := hnew.trans (List.append_nil new)
    rw [hentries, hexits] at hcount
    exact ⟨t, hrun, hentries, hexits, Nat.succ.inj hcount⟩

/-- With no room for its first line, an activation fails and stays open. -/
theorem evalRule_unopened :
    let rule : Rule Unit Unit := ⟨⟨0⟩, "A", "G.A", "A", .empty, none, [], [], []⟩
    let setting : Setting Unit Unit := ⟨#[rule], ⟨#[], 0, ""⟩, none, 0⟩
    let s : State Unit Unit := .start (some (.into (.limited 0) 80)) ()
    ∃ t, evalRule setting 1 rule.id s = .error (.error .log) t ∧ s.depth = 0 ∧ t.depth = 1 ∧
      t.notices = [.entered "G.A" Position.start] := by
  intro rule setting s
  exact ⟨_, rfl, rfl, rfl, rfl⟩

end AttrGrammar.Parse

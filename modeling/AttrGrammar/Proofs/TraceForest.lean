import AttrGrammar.Proofs.CallPassage

/-! The trace of a parse as a forest. Every activation outside the skip rule becomes an element of
the trace, with the activations inside it as its children, and stays well formed wherever an error
passes through. What is written to a trace that nothing bounds is the rendering of this forest, and
the notices of a parse that are about activations are its journal: each activation entered, those
inside it, and the activation left. -/

namespace AttrGrammar.Parse
open Text Scan Peg

variable {V W : Type}

/-- One activation of a rule: where it began and where it was closed, the match with which it ended
(none where an error ended it), and the activations inside it. -/
inductive Activation where
  | node (name fullName : String) (start stop : Position) (outcome : Option Match)
    (inner : List Activation)

namespace Activation

/-- The match with which an activation is closed; an error counts as a miss. -/
def verdict (outcome : Option Match) : Match := outcome.getD .miss

mutual

/-- An activation as a trace shows it whose outermost elements stand at a depth. -/
def render (source : Source) (limit depth : Nat) : Activation → String
  | node name _ start stop outcome inner =>
    TraceLog.lineAt depth s!"<{name}>" ++
      (TraceLog.lineAt (depth + 1) s!"<try>{TraceLog.echo limit (source.textFrom start)}</try>" ++
        (renderAll source limit (depth + 1) inner ++
          (TraceLog.lineAt (depth + 1)
              (TraceLog.outcomeLine limit (matchedText source start stop (verdict outcome))) ++
            TraceLog.lineAt depth s!"</{name}>")))

/-- Activations one after the other. -/
def renderAll (source : Source) (limit depth : Nat) : List Activation → String
  | [] => ""
  | a :: rest => render source limit depth a ++ renderAll source limit depth rest

end

mutual

/-- The notices about an activation and those inside it. -/
def journal : Activation → List Notice
  | node _ fullName start stop outcome inner =>
    .entered fullName start :: (journalAll inner ++ [.left fullName stop (verdict outcome).isHit])

def journalAll : List Activation → List Notice
  | [] => []
  | a :: rest => journal a ++ journalAll rest

end

theorem renderAll_append (source : Source) (limit depth : Nat) (forest more : List Activation) :
    renderAll source limit depth (forest ++ more) =
      renderAll source limit depth forest ++ renderAll source limit depth more := by
  induction forest with
  | nil => rw [List.nil_append, renderAll, String.empty_append]
  | cons a forest ih => rw [List.cons_append, renderAll, renderAll, ih, String.append_assoc]

theorem journalAll_append (forest more : List Activation) :
    journalAll (forest ++ more) = journalAll forest ++ journalAll more := by
  induction forest with
  | nil => rfl
  | cons a forest ih => rw [List.cons_append, journalAll, journalAll, ih, List.append_assoc]

mutual

theorem filter_journal (a : Activation) : (journal a).filter Notice.isActivation = journal a := by
  obtain ⟨name, fullName, start, stop, outcome, inner⟩ := a
  rw [journal, List.filter_cons_of_pos rfl, List.filter_append, filter_journalAll inner,
    List.filter_cons_of_pos rfl, List.filter_nil]

theorem filter_journalAll (forest : List Activation) :
    (journalAll forest).filter Notice.isActivation = journalAll forest := by
  match forest with
  | [] => rfl
  | a :: rest => rw [journalAll, List.filter_append, filter_journal a, filter_journalAll rest]

end

/-- An element between the lines with which it begins and ends. -/
theorem renderAll_node (source : Source) (limit depth : Nat) (name fullName : String)
    (start stop : Position) (outcome : Option Match) (inner : List Activation) :
    renderAll source limit depth [node name fullName start stop outcome inner] =
      TraceLog.openingText limit depth name (source.textFrom start) ++
        renderAll source limit (depth + 1) inner ++
        TraceLog.closingText limit (depth + 1) name
          (matchedText source start stop (verdict outcome)) := by
  simp only [renderAll, render, TraceLog.openingText, TraceLog.closingText, Nat.add_sub_cancel,
    String.append_assoc, String.append_empty]

end Activation

open Activation

/-! ### What a run writes -/

/-- A run from `s` to `t` took the trace from `log` to `log'`, and the activations of `forest` are
what was written and noted. While the skip rule runs there are none. -/
structure Written (source : Source) (s t : State V W) (log log' : TraceLog)
    (forest : List Activation) : Prop where
  adds : log.Adds (renderAll source log.maxLineLength log.indent forest) log'
  indent : log'.indent = log.indent
  notices : t.notices = (journalAll forest).reverse ++ s.notices
  silent : s.scanner.skipping = true → forest = []

variable {source : Source} {s t u : State V W} {log log' log'' : TraceLog}
  {forest more : List Activation}

theorem Written.refl (h : log.sink.room = none) (s : State V W) : Written source s s log log [] :=
  ⟨.refl h, rfl, rfl, fun _ => rfl⟩

theorem Written.trans (h : Written source s t log log' forest)
    (h' : Written source t u log' log'' more)
    (hskipping : t.scanner.skipping = s.scanner.skipping) :
    Written source s u log log'' (forest ++ more) := by
  refine ⟨?_, h'.indent.trans h.indent, ?_, fun hs => ?_⟩
  · have hadds := h.adds.trans h'.adds
    rwa [h.adds.maxLineLength, h.indent, ← renderAll_append] at hadds
  · rw [h'.notices, h.notices, journalAll_append, List.reverse_append, List.append_assoc]
  · rw [h.silent hs, h'.silent (hskipping.trans hs)]
    rfl

/-- Between the opening and the closing of an activation stand the activations inside it. -/
theorem Written.node {rule : Rule V W} {log₁ log₂ : TraceLog} {l l' : Option TraceLog}
    (hskipping : s.scanner.skipping = false) (outcome : Option Match)
    (hopen : log.Adds (TraceLog.openingText log.maxLineLength log.indent rule.name
      (source.textFrom s.scanner.position)) log₁) (hopenIndent : log₁.indent = log.indent + 1)
    (h : Written source (s.opened rule l) t log₁ log₂ forest)
    (hclose : log₂.Adds (TraceLog.closingText log₂.maxLineLength log₂.indent rule.name
      (matchedText source s.scanner.position t.scanner.position (verdict outcome))) log')
    (hcloseIndent : log'.indent = log₂.indent - 1) :
    Written source s (t.closed rule (verdict outcome) l') log log'
      [.node rule.name rule.fullName s.scanner.position t.scanner.position outcome forest] := by
  refine ⟨?_, ?_, ?_, fun hs => ?_⟩
  · have hadds := (hopen.trans h.adds).trans hclose
    rwa [h.adds.maxLineLength, hopen.maxLineLength, h.indent, hopenIndent,
      ← renderAll_node] at hadds
  · rw [hcloseIndent, h.indent, hopenIndent, Nat.add_sub_cancel]
  · simp only [State.closed, h.notices, State.opened, journalAll, journal, List.append_nil,
      List.reverse_cons, List.reverse_append, List.reverse_nil, List.nil_append, List.cons_append,
      List.append_assoc]
  · rw [hskipping] at hs
    cases hs

/-- From `s` to `t` a trace that nothing bounds gets the rendering of a forest. -/
structure Traces (source : Source) (s : State V W) (t : State V W) : Prop where
  skipping : t.scanner.skipping = s.scanner.skipping
  written : ∀ log, s.scanner.log = some log → log.sink.room = none →
    ∃ log' forest, t.scanner.log = some log' ∧ Written source s t log log' forest

theorem Traces.refl (source : Source) (s : State V W) : Traces source s s :=
  ⟨rfl, fun log hlog hroom => ⟨log, [], hlog, .refl hroom s⟩⟩

theorem Traces.trans (h : Traces source s t) (h' : Traces source t u) : Traces source s u := by
  refine ⟨h'.skipping.trans h.skipping, fun log hlog hroom => ?_⟩
  obtain ⟨log', forest, hlog', hwritten⟩ := h.written log hlog hroom
  obtain ⟨log'', more, hlog'', hwritten'⟩ := h'.written log' hlog' hwritten.adds.room
  exact ⟨log'', forest ++ more, hlog'', hwritten.trans hwritten' h.skipping⟩

/-- What a trace is written from, apart from the places that it shows. -/
def State.record (s : State V W) : Bool × Option TraceLog × List Notice :=
  (s.scanner.skipping, s.scanner.log, s.notices)

theorem Traces.congr {s' t' : State V W} (h : Traces source s t) (hs : s'.record = s.record)
    (ht : t'.record = t.record) : Traces source s' t' := by
  simp only [State.record, Prod.mk.injEq] at hs ht
  obtain ⟨hskipping, hlog, hnotices⟩ := hs
  obtain ⟨hskipping', hlog', hnotices'⟩ := ht
  refine ⟨by rw [hskipping', h.skipping, hskipping], fun log hstart hroom => ?_⟩
  obtain ⟨log', forest, hend, hwritten⟩ := h.written log (hlog ▸ hstart) hroom
  refine ⟨log', forest, hlog' ▸ hend, hwritten.adds, hwritten.indent, ?_, ?_⟩
  · rw [hnotices', hwritten.notices, hnotices]
  · rw [hskipping]
    exact hwritten.silent

/-- The trace of an activation that was opened and closed. -/
theorem Traces.node {rule : Rule V W} {l l' : Option TraceLog} {done : Bool}
    (hskipping : s.scanner.skipping = false)
    (hopened : TraceLog.tracing (openingLines source rule s.scanner.position) s.scanner.log =
      (true, l))
    (h : Traces source (s.opened rule l) t) (outcome : Option Match)
    (hclosed : TraceLog.tracing (closingLines source rule s.scanner.position t.scanner.position
      (verdict outcome)) t.scanner.log = (done, l')) (log : TraceLog)
    (hlog : s.scanner.log = some log) (hroom : log.sink.room = none) :
    done = true ∧ ∃ log' forest, l' = some log' ∧
      Written source s (t.closed rule (verdict outcome) l') log log'
        [.node rule.name rule.fullName s.scanner.position t.scanner.position outcome forest] := by
  obtain ⟨log₁, hopen, hadds₁, hindent₁⟩ :=
    tracing_openingLines hroom source rule s.scanner.position
  rw [hlog] at hopened
  obtain ⟨-, rfl⟩ := Prod.mk.inj (hopen.symm.trans hopened)
  obtain ⟨log₂, forest, hinner, hwritten⟩ := h.written log₁ rfl hadds₁.room
  obtain ⟨log', hclose, hadds, hindent⟩ := tracing_closingLines hwritten.adds.room source rule
    s.scanner.position t.scanner.position (verdict outcome)
  rw [hinner] at hclosed
  obtain ⟨rfl, rfl⟩ := Prod.mk.inj (hclose.symm.trans hclosed)
  exact ⟨rfl, log', forest, rfl, hwritten.node hskipping outcome hadds₁ hindent₁ hadds hindent⟩

/-- A trace that nothing bounds does not fail. -/
theorem unbounded_of_opening {rule : Rule V W} {here : Position} {l : Option TraceLog}
    (h : TraceLog.tracing (openingLines source rule here) (some log) = (false, l)) :
    log.sink.room ≠ none := by
  intro hroom
  obtain ⟨log₁, hopen, -⟩ := tracing_openingLines hroom source rule here
  cases hopen.symm.trans h

theorem traces_passage (setting : Setting V W) :
    Step.CallPassage setting
      fun (s : State V W) (_ : Option Failure) t => Traces setting.source s t where
  refl s := .refl _ s
  trans := .trans
  exhausted s := .refl _ s
  fail s _ _ := .refl _ s
  unexpected _ h _ := h
  advance s := (Traces.refl _ s).congr rfl rfl
  rewound h := h.congr rfl rfl
  recross h h' := h.trans (h'.congr rfl rfl)
  inToken h := h.congr rfl rfl
  stack _ h := h.congr rfl rfl
  frame _ h := h.congr rfl rfl
  act _ := ⟨fun h _ => h.congr rfl rfl, fun h _ _ => h.congr rfl rfl⟩
  skipping h := h.skipping
  inSkip := by
    intro s t _ hskipping h
    refine ⟨hskipping.symm, fun log hlog hroom => ?_⟩
    obtain ⟨log', forest, hlog', hwritten⟩ := h.written log hlog hroom
    refine ⟨log', forest, hlog', hwritten.adds, hwritten.indent, hwritten.notices, fun _ => ?_⟩
    exact hwritten.silent rfl
  refused _ _ := .refl _ _
  silent _ h := h.congr rfl rfl
  unopened := by
    intro s l rule hskipping hcut
    refine ⟨rfl, fun log hlog hroom => ?_⟩
    rw [hlog] at hcut
    exact absurd hroom (unbounded_of_opening hcut)
  closed := by
    intro s t r l l' rule m hskipping hopened h _ hclosed
    refine ⟨h.skipping, fun log hlog hroom => ?_⟩
    obtain ⟨-, log', forest, rfl, hwritten⟩ :=
      h.node hskipping hopened (some m) hclosed log hlog hroom
    exact ⟨log', _, rfl, hwritten⟩
  cut := by
    intro s t l l' rule m hskipping hopened h hclosed
    refine ⟨h.skipping, fun log hlog hroom => ?_⟩
    obtain ⟨hdone, -⟩ := h.node hskipping hopened (some m) hclosed log hlog hroom
    cases hdone
  unclosed := by
    intro s t e l l' rule hskipping hopened h hclosed
    refine ⟨h.skipping, fun log hlog hroom => ?_⟩
    obtain ⟨hdone, -⟩ := h.node hskipping hopened none hclosed log hlog hroom
    cases hdone

/-! ### One activation -/

/-- What calling a rule does to a trace that nothing bounds: nothing while the skip rule runs or
where the activation is refused, and else one element is written, for this activation. -/
def TracesCall (setting : Setting V W) (rule : Rule V W) (s : State V W) (outcome : Option Match)
    (t : State V W) : Prop :=
  ∀ log, s.scanner.log = some log → log.sink.room = none →
    ∃ log' forest, t.scanner.log = some log' ∧ Written setting.source s t log log' forest ∧
      (s.scanner.skipping = true ∨ setting.Refuses s.depth → forest = []) ∧
      (s.scanner.skipping = false → ¬ setting.Refuses s.depth → ∃ stop inner, forest =
        [.node rule.name rule.fullName s.scanner.position stop outcome inner])

section

variable {setting : Setting V W} {rule : Rule V W}

theorem TracesCall.of_refused (hrefuses : setting.Refuses s.depth) :
    TracesCall setting rule s none s :=
  fun log hlog hroom => ⟨log, [], hlog, .refl hroom s, fun _ => rfl,
    fun _ hadmitted => absurd hrefuses hadmitted⟩

theorem TracesCall.of_skipping {outcome : Option Match} (hskipping : s.scanner.skipping = true)
    (h : Traces setting.source s t) : TracesCall setting rule s outcome t := by
  intro log hlog hroom
  obtain ⟨log', forest, hlog', hwritten⟩ := h.written log hlog hroom
  refine ⟨log', forest, hlog', hwritten, fun _ => hwritten.silent hskipping, fun hnot => ?_⟩
  rw [hskipping] at hnot
  cases hnot

theorem TracesCall.of_opened {l l' : Option TraceLog} {done : Bool} (outcome : Option Match)
    (hskipping : s.scanner.skipping = false) (hadmitted : ¬ setting.Refuses s.depth)
    (hopened : TraceLog.tracing (openingLines setting.source rule s.scanner.position)
      s.scanner.log = (true, l))
    (h : Traces setting.source (s.opened rule l) t)
    (hclosed : TraceLog.tracing (closingLines setting.source rule s.scanner.position
      t.scanner.position (verdict outcome)) t.scanner.log = (done, l')) :
    TracesCall setting rule s outcome (t.closed rule (verdict outcome) l') := by
  intro log hlog hroom
  obtain ⟨-, log', inner, rfl, hwritten⟩ := h.node hskipping hopened outcome hclosed log hlog hroom
  refine ⟨log', _, rfl, hwritten, fun hnot => ?_, fun _ _ => ⟨_, inner, rfl⟩⟩
  obtain hskips | hrefuses := hnot
  · rw [hskipping] at hskips
    cases hskips
  · exact absurd hrefuses hadmitted

/-- Where nothing bounds the trace it does not fail as an activation is closed. -/
theorem TracesCall.of_cut {l l' : Option TraceLog} {outcome' : Option Match}
    (outcome : Option Match) (hskipping : s.scanner.skipping = false)
    (hopened : TraceLog.tracing (openingLines setting.source rule s.scanner.position)
      s.scanner.log = (true, l))
    (h : Traces setting.source (s.opened rule l) t)
    (hcut : TraceLog.tracing (closingLines setting.source rule s.scanner.position
      t.scanner.position (verdict outcome)) t.scanner.log = (false, l')) :
    TracesCall setting rule s outcome' u := by
  intro log hlog hroom
  obtain ⟨hdone, -⟩ := h.node hskipping hopened outcome hcut log hlog hroom
  cases hdone

end

/-- Calling a rule adds one element to the trace, or none where it is refused or skipped. -/
theorem evalRule_traces (setting : Setting V W) (fuel : Nat) {id : RuleId} {rule : Rule V W}
    (hrule : setting.rules[id.index]? = some rule) (s : State V W) :
    (evalRule setting (fuel + 1) id).Ensures s (fun m t => TracesCall setting rule s (some m) t)
      fun _ t => TracesCall setting rule s none t := by
  have hpassage := traces_passage setting
  have hbody := hpassage.evaluate rule (hpassage.evalDefinition (evalRule_reading setting fuel)
    (hpassage.evalRule fuel) hrule)
  rw [evalRule, hrule]
  dsimp only
  refine Step.ensures_activate_cases setting rule .of_refused (fun hskipping => ?_)
    (fun l _ hcut => ?_)
    fun l hadmitted hskipping hopened => ?_
  · refine (hbody { s with depth := s.depth + 1 }).mono (fun m t ht => ?_) fun e t ht => ?_
    all_goals exact ⟨ht.skipping.trans hskipping, .of_skipping hskipping (ht.congr rfl rfl)⟩
  · -- The trace failed at once, so it has a bound.
    intro log hlog hroom
    rw [hlog] at hcut
    exact absurd hroom (unbounded_of_opening hcut)
  · refine (hbody (s.opened rule l)).mono
      (fun m t ht => ⟨ht.skipping.trans hskipping, fun done l' hclosed => ?_⟩)
      fun e t ht => ⟨ht.skipping.trans hskipping, fun done l' hclosed => ?_⟩
    · cases done with
      | true => exact .of_opened (some m) hskipping hadmitted hopened ht hclosed
      | false => exact .of_cut (some m) hskipping hopened ht hclosed
    · cases done with
      | true => exact .of_opened none hskipping hadmitted hopened ht hclosed
      | false => exact .of_cut none hskipping hopened ht hclosed

/-- Nothing has been noted, and nothing written to a trace without a bound. -/
def Untraced (source : Source) (s t : State V W) : Prop :=
  ∀ log, s.scanner.log = some log → log.sink.room = none →
    ∃ log', t.scanner.log = some log' ∧ Written source s t log log' []

/-- Whatever is called while the skip rule runs writes nothing. -/
theorem Traces.untraced (h : Traces source { s with scanner := s.scanner.beginSkip } t)
    (hlog : u.scanner.log = t.scanner.log) (hnotices : u.notices = t.notices) :
    Untraced source s u := by
  intro log hstart hroom
  obtain ⟨log', forest, hend, hwritten⟩ := h.written log hstart hroom
  obtain rfl := hwritten.silent rfl
  exact ⟨log', hlog.trans hend, hwritten.adds, hwritten.indent,
    hnotices.trans hwritten.notices, fun _ => rfl⟩

/-- The skip rule writes nothing. -/
theorem skip_untraced (setting : Setting V W) (fuel : Nat) (s : State V W) :
    (Step.skip setting (evalRule setting fuel)).Ensures s (fun _ t => Untraced setting.source s t)
      fun _ t => Untraced setting.source s t := by
  refine Step.ensures_skip_cases setting (fun log hlog hroom => ⟨log, hlog, .refl hroom s⟩)
    fun id _ => ((traces_passage setting).evalRule fuel id _).mono (fun _ t ht _ => ?_)
      fun _ t ht => ht.untraced rfl rfl
  exact ⟨ht.untraced rfl rfl, ht.untraced rfl rfl⟩

/-! ### Whole parses -/

/-- No character of a line's input can be taken for an element or end the line. -/
theorem traceEscape_plain (c d : Char) (h : d ∈ (traceEscape c).toList) :
    d ∉ ['<', '>', '\n', '\r'] := by
  have hspecial : ∀ line ∈ ["&amp;", "&lt;", "&gt;", "\\n", "\\r", "\\t"],
      ∀ d ∈ line.toList, d ∉ ['<', '>', '\n', '\r'] := by simp
  unfold traceEscape at h
  split at h
  iterate 6 exact hspecial _ (by simp) d h
  next hlt hgt hfeed hreturn _ =>
  rw [Char.toString_eq_singleton, String.toList_singleton, List.mem_singleton] at h
  subst h
  simp only [List.mem_cons, List.not_mem_nil, or_false, not_or]
  exact ⟨hlt, hgt, hfeed, hreturn⟩

theorem echo_plain (limit : Nat) (text : Slice) (c : Char)
    (h : c ∈ (TraceLog.echo limit text).toList) : c ∉ ['<', '>', '\n', '\r'] := by
  rw [TraceLog.echo, String.toList_join, List.mem_flatMap] at h
  obtain ⟨line, hline, hc⟩ := h
  obtain ⟨d, -, rfl⟩ := List.mem_map.1 hline
  exact traceEscape_plain d c hc

/-- The trace of a parse shows a forest, and so do the notices that are about activations. -/
structure Shows (source : Source) (limit : Nat) (forest : List Activation) (log : Option TraceLog)
    (notices : List Notice) : Prop where
  trace : ∃ l, log = some l ∧ l.sink.bytes = (renderAll source limit 0 forest).toUTF8
  notices : notices.filter Notice.isActivation = journalAll forest

/-- The end of an evaluation, with what is noted behind it. -/
theorem Traces.shows {setting : Setting V W} {start : Rule V W} {args : List V} {limit : Nat}
    {world : W}
    (h : Traces setting.source
      (.begun setting start args (.start (some (.into .unlimited limit)) world)) t)
    (front : List Notice) (hfront : front.filter Notice.isActivation = []) :
    ∃ forest, Shows setting.source limit forest t.scanner.log (front ++ t.notices).reverse := by
  obtain ⟨log, forest, hlog, hwritten⟩ := h.written _ rfl rfl
  refine ⟨forest, ⟨log, hlog, ?_⟩, ?_⟩
  · have hempty : (TraceLog.into .unlimited limit).sink.bytes = ByteArray.empty := rfl
    rw [hwritten.adds.bytes, hempty, ByteArray.empty_append]
    rfl
  · rw [hwritten.notices, List.filter_reverse, List.filter_append, hfront, List.filter_append,
      List.filter_reverse, filter_journalAll]
    simp [State.begun, State.start, Notice.isActivation]

theorem parseWithin_shows (d : Domain V W) (g : Grammar) (text : Buffer) (options : Options V)
    (limit fuel : Nat) (world : W) :
    let report := parseWithin fuel d g text
      { options with log := some (.into .unlimited limit) } world
    ∃ forest, Shows (settingFor d g text options).source limit forest report.log
      report.notices := by
  intro report
  have hreport : report = .ofRun (runGrammar d g (settingFor d g text options) fuel options.args
      (.start (some (.into .unlimited limit)) world)) := parseWithin_eq fuel d g text _ world
  rw [hreport]
  refine Report.of_ensures (P := fun r _ => ∃ forest,
    Shows (settingFor d g text options).source limit forest r.log r.notices) ?_
  refine (traces_passage _).runGrammar d g fuel (fun e _ => ?_)
    (fun start e t _ ht => ht.shows [] rfl) fun start t _ ht => ⟨ht.shows [] rfl, fun v => ?_, ?_⟩
  · exact ⟨[], ⟨_, rfl, rfl⟩, rfl⟩
  · exact ht.shows [endNotice _ t true] rfl
  · exact ht.shows [endNotice _ t false] rfl

/-- Traces are well formed. For each parse with a trace that nothing bounds, however it ends, there
is a forest of activations of which the trace is the rendering and the notices are the journal. The
call of a rule adds one element to the forest, for itself, with its own place and outcome; it adds
nothing where it is refused or while the skip rule runs, and neither does the skip. Nothing that is
shown of the input contains a bracket or ends a line. -/
theorem trace_wellFormed (d : Domain V W) (g : Grammar) (text : Buffer) (options : Options V)
    (limit fuel : Nat) (world : W) :
    let setting := settingFor d g text options
    let report := parseWithin fuel d g text
      { options with log := some (.into .unlimited limit) } world
    (∃ forest, Shows setting.source limit forest report.log report.notices) ∧
    (∀ nesting id rule s, setting.rules[id.index]? = some rule →
      (evalRule setting (nesting + 1) id).Ensures s
        (fun m t => TracesCall setting rule s (some m) t)
        fun _ t => TracesCall setting rule s none t) ∧
    (∀ nesting s, (Step.skip setting (evalRule setting nesting)).Ensures s
      (fun _ t => Untraced setting.source s t) fun _ t => Untraced setting.source s t) ∧
    ∀ n shown c, c ∈ (TraceLog.echo n shown).toList → c ∉ ['<', '>', '\n', '\r'] :=
  ⟨parseWithin_shows d g text options limit fuel world,
    fun nesting _ _ s hrule => evalRule_traces _ nesting hrule s, skip_untraced _, echo_plain⟩

/-- A rule that matches a letter, called twice, the second time behind blanks and with insistence. -/
def twiceGrammar : GrammarDecl Unit Unit where
  name := "twice"
  start := some "outer"
  skip := some "blank"
  rules := [
    { name := "outer", definition := .sequence (.call "inner") (.expectation (.call "inner")) },
    { name := "inner", definition := .char 'b' },
    { name := "blank", definition := .char ' ' }]

def twiceDomain : Domain Unit Unit := Domain.build {} [twiceGrammar]

def twice : Grammar := twiceDomain.grammars[0]?.get (by decide +kernel)

def twiceText : Buffer := #['b', ' ', '<']

def twiceTrace : String :=
  "<outer>\n  <try>b &lt;</try>\n" ++
  "  <inner>\n    <try>b &lt;</try>\n    <success>b</success>\n  </inner>\n" ++
  "  <inner>\n    <try>&lt;</try>\n    <fail/>\n  </inner>\n" ++
  "  <fail/>\n</outer>\n"

/-- The second call ends with an error. The blank between the calls leaves no trace, and the bracket
is shown escaped. -/
theorem trace_wellFormed_twice :
    let setting := settingFor twiceDomain twice twiceText {}
    (∃ forest, renderAll setting.source 80 0 forest = twiceTrace ∧
      journalAll forest = [.entered "twice.outer" ⟨1, 1, 0⟩,
        .entered "twice.inner" ⟨1, 1, 0⟩, .left "twice.inner" ⟨1, 2, 1⟩ true,
        .entered "twice.inner" ⟨1, 3, 2⟩, .left "twice.inner" ⟨1, 3, 2⟩ false,
        .left "twice.outer" ⟨1, 3, 2⟩ false]) ∧
    ∃ e t stop inner,
      evalRule setting 2 (.ofNat 0) (.start (some (.into .unlimited 80)) ()) = .error e t ∧
      t.notices = (journal (.node "outer" "twice.outer" ⟨1, 1, 0⟩ stop none inner)).reverse := by
  intro setting
  obtain ⟨⟨forest, htrace, hnotices⟩, hcall, -⟩ :=
    trace_wellFormed twiceDomain twice twiceText {} 80 2 ()
  constructor
  · obtain ⟨log, hlog, hbytes⟩ := htrace
    refine ⟨forest, ?_, hnotices.symm.trans (by decide +kernel)⟩
    have hwritten : (parseWithin 2 twiceDomain twice twiceText
        { log := some (.into .unlimited 80) } ()).log.map (·.sink.bytes) =
          some twiceTrace.toUTF8 := by decide +kernel
    rw [hlog] at hwritten
    exact String.toByteArray_inj.1 (hbytes.symm.trans (Option.some.inj hwritten))
  · obtain ⟨e, t, hrun, -⟩ : ∃ e t, evalRule setting 2 (.ofNat 0)
        (.start (some (.into .unlimited 80)) ()) = .error e t ∧ True :=
      Step.Ensures.exists_error (by decide +kernel)
    obtain ⟨log', forest, -, hwritten, -, hnode⟩ :=
      (hcall 1 (.ofNat 0) _ _ rfl).of_error hrun _ rfl rfl
    obtain ⟨stop, inner, rfl⟩ := hnode rfl nofun
    refine ⟨e, t, stop, inner, hrun, hwritten.notices.trans ?_⟩
    rw [journalAll, journalAll, List.append_nil]
    exact List.append_nil _

/-- A rule that matches two characters. -/
def doubleGrammar : GrammarDecl Unit Unit where
  name := "doubles"
  start := some "double"
  rules := [{ name := "double", definition := .literal "aa" }]

def doubleDomain : Domain Unit Unit := Domain.build {} [doubleGrammar]

def doubles : Grammar := doubleDomain.grammars[0]?.get (by decide +kernel)

/-- The line that tells what was matched is cut where the lines of a trace are cut. -/
theorem trace_double_cut :
    let report := parse doubleDomain doubles #['a', 'a'] { log := some (.into .unlimited 1) } ()
    report.notices.filter Notice.isActivation =
      [.entered "doubles.double" ⟨1, 1, 0⟩, .left "doubles.double" ⟨1, 3, 2⟩ true] ∧
    report.log.map (·.sink.text) =
      some "<double>\n  <try>a</try>\n  <success>a</success>\n</double>\n" ∧
    String.join (['a', 'a'].map traceEscape) = "aa" ∧
    report.log.map (·.sink.text) ≠
      some "<double>\n  <try>a</try>\n  <success>aa</success>\n</double>\n" := by
  decide +kernel

end AttrGrammar.Parse

import AttrGrammar.Proofs.CallPassage
import AttrGrammar.Proofs.Moments

/-! The places of a parse. All that a parse does to the cursor is to read characters and to go back
to places where it stood, whether it goes on to a match or breaks off. So every place that it notes,
shows to an action or puts into an error is one where it stood, and every stretch lies between two
of these, in their order. -/

namespace AttrGrammar.Parse
open Text Scan Peg Relation

variable {V W α : Type}

/-- Where a notice says that the parse stands. -/
def Notice.place? : Notice → Option Position
  | entered _ place | left _ place _ | stopped _ place => some place
  | _ => none

/-- The error was raised by an action, or because the grammar cannot be parsed with. -/
def ParseError.isException : ParseError → Bool
  | exception .. => true
  | _ => false

/-- The stretch between two places where the cursor has stood, the first of them not behind the
other. -/
def Crossed (source : Source) (history : List Cursor) (span : Span) : Prop :=
  ∃ c ∈ history, ∃ d ∈ history, c.offset ≤ d.offset ∧ span = source.span c.position d.position

/-- What an action sees lies between two places where the cursor has stood. -/
structure Faithful (source : Source) (history : List Cursor) (ctx : ActionContext V W) : Prop where
  span : ∃ c ∈ history, ∃ d ∈ history, c.offset ≤ d.offset ∧
    ctx.span = source.span c.position d.position ∧
    ctx.text = source.textBetween c.position d.position
  fileName : ctx.fileName = source.fileName

/-- What a run noted and broke off with, and what its actions saw, in view of a history. -/
structure Tells (setting : Setting V W) (history : List Cursor) (s : State V W) (r : Option Failure)
    (t : State V W) : Prop where
  notices : ∃ new, t.notices = new ++ s.notices ∧
    ∀ n ∈ new, n.isActivation = true ∧
      ∀ place, n.place? = some place → ∃ c ∈ history, c.position = place
  error : ∀ e location, r = some (.error e) → e.location? = some location →
    ∃ span, Crossed setting.source history span ∧ location = setting.location span ∧
      (e.isException = false → span.isEmpty = true)
  world : ∀ P : W → Prop,
    (∀ run, setting.Acts run → ∀ ctx, Faithful setting.source history ctx → P ctx.world →
      P (run ctx).world) → P s.world → P t.world

/-- Whatever the history of the cursor was in `s`, it goes on from there to `t`. -/
structure Charts (setting : Setting V W) (s : State V W) (r : Option Failure) (t : State V W) :
    Prop where
  skipping : t.scanner.skipping = s.scanner.skipping
  path : ∀ past, ∃ later,
    ReflTransGen (Cursor.Moves setting.source.text) (s.scanner.cursor :: past)
      (t.scanner.cursor :: later) ∧
    Tells setting (t.scanner.cursor :: later) s r t

variable {setting : Setting V W} {history history' : List Cursor} {s t u : State V W}
  {r : Option Failure}

theorem isEmpty_span (source : Source) (place : Position) :
    (source.span place place).isEmpty = true := by
  simp [Span.isEmpty, Source.span, Span.between]

/-- The empty stretch at a place where the cursor has stood. -/
theorem Crossed.at_moment {source : Source} {c : Cursor} (hc : c ∈ history) :
    Crossed source history (source.span c.position c.position) :=
  ⟨c, hc, c, hc, Nat.le_refl _, rfl⟩

theorem Crossed.mono {source : Source} {span : Span} (h : Crossed source history span)
    (hsubset : history ⊆ history') : Crossed source history' span := by
  obtain ⟨c, hc, d, hd, hspan⟩ := h
  exact ⟨c, hsubset hc, d, hsubset hd, hspan⟩

theorem Faithful.mono {source : Source} {ctx : ActionContext V W} (h : Faithful source history ctx)
    (hsubset : history ⊆ history') : Faithful source history' ctx := by
  obtain ⟨⟨c, hc, d, hd, hspan⟩, hname⟩ := h
  exact ⟨⟨c, hsubset hc, d, hsubset hd, hspan⟩, hname⟩

theorem Tells.refl (setting : Setting V W) (history : List Cursor) (s : State V W) :
    Tells setting history s none s :=
  ⟨⟨[], rfl, by simp⟩, fun _ _ hnone => (nomatch hnone), fun _ _ hs => hs⟩

/-- Only the notices and the world are looked at. -/
theorem Tells.congr {s' t' : State V W} (h : Tells setting history s r t)
    (hs : s'.notices = s.notices ∧ s'.world = s.world)
    (ht : t'.notices = t.notices ∧ t'.world = t.world) : Tells setting history s' r t' := by
  refine ⟨?_, h.error, ?_⟩
  · rw [hs.1, ht.1]
    exact h.notices
  · rw [hs.2, ht.2]
    exact h.world

theorem Tells.trans (h : Tells setting history s none t) (h' : Tells setting history' t r u)
    (hsubset : history ⊆ history') : Tells setting history' s r u := by
  obtain ⟨new, hnew, hplaces⟩ := h.notices
  obtain ⟨new', hnew', hplaces'⟩ := h'.notices
  refine ⟨⟨new' ++ new, ?_, fun n hn => ?_⟩, h'.error, fun P hP hs => ?_⟩
  · rw [hnew', hnew, List.append_assoc]
  · obtain hn | hn := List.mem_append.1 hn
    · exact hplaces' n hn
    · refine ⟨(hplaces n hn).1, fun place hplace => ?_⟩
      obtain ⟨c, hc, hposition⟩ := (hplaces n hn).2 place hplace
      exact ⟨c, hsubset hc, hposition⟩
  · refine h'.world P hP (h.world P (fun run hrun ctx hctx => ?_) hs)
    exact hP run hrun ctx (hctx.mono hsubset)

theorem Tells.mono (h : Tells setting history s none t) (hsubset : history ⊆ history') :
    Tells setting history' s none t := h.trans (.refl _ _ _) hsubset

/-- A run breaks off with an error that lies between two places where the cursor has stood. -/
theorem Tells.broken (h : Tells setting history s none t) {e : ParseError} {span : Span}
    (hspan : Crossed setting.source history span)
    (hlocation : ∀ location, e.location? = some location → location = setting.location span)
    (hempty : e.isException = false → span.isEmpty = true) :
    Tells setting history s (some (.error e)) t := by
  refine ⟨h.notices, fun e' location he hsome => ?_, h.world⟩
  obtain rfl : e = e' := by simpa using he
  exact ⟨span, hspan, hlocation location hsome, hempty⟩

theorem Charts.refl (s : State V W) : Charts setting s none s :=
  ⟨rfl, fun past => ⟨past, .refl, .refl _ _ s⟩⟩

theorem Charts.trans (h : Charts setting s none t) (h' : Charts setting t r u) :
    Charts setting s r u := by
  refine ⟨h'.skipping.trans h.skipping, fun past => ?_⟩
  obtain ⟨later, hmoves, htells⟩ := h.path past
  obtain ⟨later', hmoves', htells'⟩ := h'.path later
  exact ⟨later', hmoves.trans hmoves', htells.trans htells' (Cursor.subset_of_moves hmoves')⟩

/-- Only the cursor, the notices and the world are looked at, and whether the skip rule runs. -/
theorem Charts.congr {s' t' : State V W} (h : Charts setting s r t)
    (hs : s'.scanner.cursor = s.scanner.cursor ∧ s'.notices = s.notices ∧ s'.world = s.world)
    (ht : t'.scanner.cursor = t.scanner.cursor ∧ t'.notices = t.notices ∧ t'.world = t.world)
    (hskipping : t'.scanner.skipping = s'.scanner.skipping) : Charts setting s' r t' := by
  refine ⟨hskipping, fun past => ?_⟩
  rw [hs.1, ht.1]
  obtain ⟨later, hmoves, htells⟩ := h.path past
  exact ⟨later, hmoves, htells.congr hs.2 ht.2⟩

/-- The same way, but with another ending, or with more told of it. -/
theorem Charts.retold (h : Charts setting s r t) {r' : Option Failure}
    (hskipping : u.scanner.skipping = t.scanner.skipping)
    (hcursor : u.scanner.cursor = t.scanner.cursor)
    (htold : ∀ history, s.scanner.cursor ∈ history → t.scanner.cursor ∈ history →
      Tells setting history s r t → Tells setting history s r' u) : Charts setting s r' u := by
  refine ⟨hskipping.trans h.skipping, fun past => ?_⟩
  rw [hcursor]
  obtain ⟨later, hmoves, htells⟩ := h.path past
  have hmem := Cursor.subset_of_moves hmoves List.mem_cons_self
  exact ⟨later, hmoves, htold _ hmem List.mem_cons_self htells⟩

/-- An error that lies nowhere, or no fuel. -/
theorem Charts.broken (h : Charts setting s none t) {e : Failure}
    (he : ∀ e', e = .error e' → e'.location? = none) : Charts setting s (some e) t := by
  refine h.retold rfl rfl fun history _ _ htells => ⟨htells.notices, ?_, htells.world⟩
  intro e' location hsome hlocation
  rw [he e' (Option.some.inj hsome)] at hlocation
  cases hlocation

/-- An error at the very place where the run stands. -/
theorem Charts.failedHere (h : Charts setting s none t) {e : ParseError}
    (he : e.location? = some (setting.location (t.scanner.currentSpan setting.source))) :
    Charts setting s (some (.error e)) t := by
  refine h.retold rfl rfl fun history _ hmem htells => htells.broken (.at_moment hmem)
    (fun location hsome => ?_) fun _ => isEmpty_span _ _
  exact Option.some.inj (hsome.symm.trans he)

theorem Charts.noted (h : Charts setting s r t) (n : Notice) (hactivation : n.isActivation = true)
    (hn : ∀ place, n.place? = some place → place = t.scanner.position) :
    Charts setting s r { t with notices := n :: t.notices } := by
  refine h.retold rfl rfl fun history _ hmem htells => ?_
  obtain ⟨new, hnew, hplaces⟩ := htells.notices
  refine ⟨⟨n :: new, ?_, fun n' hn' => ?_⟩, htells.error, htells.world⟩
  · rw [hnew, List.cons_append]
  · obtain rfl | hn' := List.mem_cons.1 hn'
    · exact ⟨hactivation, fun place hplace => ⟨_, hmem, (hn place hplace).symm⟩⟩
    · exact hplaces n' hn'

/-! ### Moving -/

theorem Charts.advance (s : State V W) : Charts setting s none
    { s with scanner := s.scanner.mapCursor (·.advance setting.source.text) } := by
  refine ⟨rfl, fun past => ?_⟩
  by_cases hlt : s.scanner.cursor.offset < setting.source.text.size
  · exact ⟨_, .single (.read hlt), (Tells.refl _ _ s).congr ⟨rfl, rfl⟩ ⟨rfl, rfl⟩⟩
  · have hpeek : s.scanner.cursor.peek? setting.source.text = none := by
      simpa [Cursor.peek?] using hlt
    have hstill : s.scanner.cursor.advance setting.source.text = s.scanner.cursor := by
      rw [Cursor.advance, hpeek]
    refine ⟨past, ?_, (Tells.refl _ _ s).congr ⟨rfl, rfl⟩ ⟨rfl, rfl⟩⟩
    rw [Scanner.cursor_mapCursor, hstill]

theorem Charts.rewound (h : Charts setting s none t) :
    Charts setting s none (t.backAt s.scanner.position) := by
  refine ⟨h.skipping, fun past => ?_⟩
  obtain ⟨later, hmoves, htells⟩ := h.path past
  have hmem := Cursor.subset_of_moves hmoves List.mem_cons_self
  exact ⟨_, hmoves.tail (.back hmem),
    (htells.mono (List.subset_cons_self _ _)).congr ⟨rfl, rfl⟩ ⟨rfl, rfl⟩⟩

theorem Charts.recross (h : Charts setting s none t)
    (h' : Charts setting (t.backAt s.scanner.position) none u) :
    Charts setting s none (u.backAt t.scanner.position) := by
  refine ⟨h'.skipping.trans h.skipping, fun past => ?_⟩
  obtain ⟨later, hmoves, htells⟩ := h.path past
  obtain ⟨later', hmoves', htells'⟩ := h'.path (t.scanner.cursor :: later)
  have hmem := Cursor.subset_of_moves hmoves List.mem_cons_self
  have hgrown := Cursor.subset_of_moves hmoves'
  -- The cursor goes over the first run, back, over the second one, and to the end of the first.
  have hback := (hmoves.tail (.back hmem)).trans hmoves'
  refine ⟨_, hback.tail (.back (hgrown (List.mem_cons_of_mem _ List.mem_cons_self))), ?_⟩
  have hagain : Tells setting (u.scanner.cursor :: later') t none u :=
    htells'.congr ⟨rfl, rfl⟩ ⟨rfl, rfl⟩
  have htold := htells.trans hagain (List.Subset.trans (List.subset_cons_self _ _) hgrown)
  exact (htold.mono (List.subset_cons_self _ _)).congr ⟨rfl, rfl⟩ ⟨rfl, rfl⟩

/-! ### Actions -/

/-- An action sees what lies between the start of a run and its end. -/
theorem Tells.acted (h : Tells setting history s none t) (hstart : s.scanner.cursor ∈ history)
    (hend : t.scanner.cursor ∈ history) (hle : s.scanner.offset ≤ t.scanner.offset)
    {run : ActionContext V W → ActionContext V W} (hrun : setting.Acts run) :
    Tells setting history s none (t.acted (run (t.actionContext setting s.scanner.position))) := by
  refine ⟨h.notices, fun _ _ hnone => (nomatch hnone), fun P hP hs => ?_⟩
  refine hP run hrun _ ⟨⟨_, hstart, _, hend, hle, rfl, rfl⟩, rfl⟩ ?_
  exact h.world P hP hs

theorem charts_acts {run : ActionContext V W → ActionContext V W} (hrun : setting.Acts run) :
    Step.ActsAlong setting (Charts setting) run where
  done h hle := h.retold rfl rfl fun _ hstart hend htells => htells.acted hstart hend hle hrun
  raised := by
    intro s t reason h hle _
    refine h.retold rfl rfl fun history hstart hend htells => ?_
    refine (htells.acted hstart hend hle hrun).broken ⟨_, hstart, _, hend, hle, rfl⟩
      (fun location hsome => ?_) fun hnot => ?_
    · exact (Option.some.inj hsome).symm
    · cases hnot

/-! ### Activations -/

theorem Charts.entered (s : State V W) (rule : Rule V W) (l : Option TraceLog) :
    Charts setting s none (s.opened rule l) := by
  have hstill : Charts setting s none s := .refl s
  have hnoted := hstill.noted (.entered rule.fullName s.scanner.position) rfl fun _ hplace =>
    (Option.some.inj hplace).symm
  exact hnoted.congr ⟨rfl, rfl, rfl⟩ ⟨rfl, rfl, rfl⟩ rfl

/-- An activation is noted where it begins and where it is closed. -/
theorem Charts.left {rule : Rule V W} {l l' : Option TraceLog}
    (h : Charts setting (s.opened rule l) r t) (m : Match) :
    Charts setting s r (t.closed rule m l') := by
  have hnoted := ((Charts.entered s rule l).trans h).noted
    (.left rule.fullName t.scanner.position m.isHit) rfl fun _ hplace =>
      (Option.some.inj hplace).symm
  exact hnoted.congr ⟨rfl, rfl, rfl⟩ ⟨rfl, rfl, rfl⟩ h.skipping

theorem charts_passage (setting : Setting V W) :
    Step.CallPassage setting (Charts setting) where
  refl := .refl
  trans := .trans
  exhausted s := (Charts.refl s).broken fun _ he => nomatch he
  fail s e he := (Charts.refl s).broken fun _ he' => by cases he'; exact he
  unexpected expected h hplace := h.failedHere (by rw [← hplace]; rfl)
  advance := .advance
  rewound := .rewound
  recross := .recross
  inToken h := h.congr ⟨rfl, rfl, rfl⟩ ⟨rfl, rfl, rfl⟩ h.skipping
  stack _ h := h.congr ⟨rfl, rfl, rfl⟩ ⟨rfl, rfl, rfl⟩ h.skipping
  frame _ h := h.congr ⟨rfl, rfl, rfl⟩ ⟨rfl, rfl, rfl⟩ h.skipping
  act := charts_acts
  skipping h := h.skipping
  inSkip hskipping h := h.congr ⟨rfl, rfl, rfl⟩ ⟨rfl, rfl, rfl⟩ hskipping.symm
  refused _ _ := (Charts.refl _).failedHere rfl
  silent _ h := h.congr ⟨rfl, rfl, rfl⟩ ⟨rfl, rfl, rfl⟩ h.skipping
  unopened _ _ _ := (Charts.entered _ _ _).broken fun _ he => by cases he; rfl
  closed _ m _ _ h _ _ := h.left m
  cut _ m _ _ h _ := (h.left m).broken fun _ he => by cases he; rfl
  unclosed _ _ _ h _ := (h.left .miss).noted _ rfl fun _ hplace => nomatch hplace

/-! ### Whole parses -/

/-- What an action sees is a stretch of the source, and the text between its two ends. -/
structure Sees (source : Source) (ctx : ActionContext V W) : Prop where
  span : ctx.span.Lies source.text
  text : ctx.text.toList =
    (source.text.toList.drop ctx.span.start).take (ctx.span.stop - ctx.span.start)
  fileName : ctx.fileName = source.fileName
  fileIndex : ctx.span.fileIndex = source.fileIndex

theorem Crossed.lies {source : Source} {span : Span} (h : Crossed source history span)
    (hcharted : Cursor.Charted source.text history) : span.Lies source.text := by
  obtain ⟨c, hc, d, hd, hle, rfl⟩ := h
  exact Span.between_lies (hcharted.inText hc) (hcharted.inText hd) hle _

theorem Faithful.sees {source : Source} {ctx : ActionContext V W}
    (h : Faithful source history ctx) (hcharted : Cursor.Charted source.text history) :
    Sees source ctx := by
  obtain ⟨⟨c, hc, d, hd, hle, hspan, htext⟩, hname⟩ := h
  refine ⟨Crossed.lies ⟨c, hc, d, hd, hle, hspan⟩ hcharted, ?_, hname, by rw [hspan]; rfl⟩
  rw [htext, hspan]
  exact Source.toList_textBetween hle (hcharted.inText hd)

/-- The report of a parse in view of the moments of its cursor, the latest first. -/
structure Surveyed (setting : Setting V W) (world : W) (report : Report α W)
    (history : List Cursor) : Prop where
  path : ReflTransGen (Cursor.Moves setting.source.text) [Cursor.start] history
  /-- Each moment: where the cursor stands, and what its farthest place is. -/
  charted : Cursor.Charted setting.source.text history
  notices : ∀ n ∈ report.notices, ∀ place, n.place? = some place → ∃ c ∈ history, c.position = place
  error : ∀ e location, report.outcome = .error (.error e) → e.location? = some location →
    location.span.Lies setting.source.text ∧ location = setting.location location.span ∧
      (e.isException = false → location.span.isEmpty = true)
  /-- A parse that did not match the whole input is said to have stopped where it came farthest. -/
  stopped : ∀ file place, .stopped file place ∈ report.notices →
    (∀ c ∈ history, c.offset ≤ place.offset) ∧
      ∃ expected, report.outcome = .error (.error (.expectation expected
        (setting.location (.emptyAt setting.source.fileIndex place))))
  /-- What actions keep that see what they ought to, the parse keeps. -/
  world : ∀ P : W → Prop,
    (∀ run, setting.Acts run → ∀ ctx, Sees setting.source ctx → P ctx.world → P (run ctx).world) →
    P world → P report.world

/-- An error that lies in the text lies between two moments of the cursor. -/
def Located (setting : Setting V W) (outcome : Except Failure α) (history : List Cursor) : Prop :=
  ∀ e location, outcome = .error (.error e) → e.location? = some location →
    ∃ span, Crossed setting.source history span ∧ location = setting.location span ∧
      (e.isException = false → span.isEmpty = true)

/-- What is reported at the end of an evaluation, with some notices behind it. -/
theorem Charts.surveyed (h : Charts setting s r t) (hstart : s.scanner.cursor = .start)
    (hquiet : ∀ n ∈ s.notices, n.place? = none) (outcome : Except Failure α)
    (log : Option TraceLog) (front : List Notice)
    (hfront : ∀ n ∈ front, ∀ place, n.place? = some place →
      place = t.scanner.cursor.farthest ∧
        ∃ start, outcome = .error (.error (stopError setting start t)))
    (houtcome : ∀ e, outcome = .error e →
      r = some e ∨ ∃ start, e = .error (stopError setting start t)) :
    ∃ past, Surveyed setting s.world ⟨outcome, log, (front ++ t.notices).reverse, t.world⟩
      (t.scanner.cursor :: past) ∧ Located setting outcome (t.scanner.cursor :: past) := by
  obtain ⟨past, hmoves, htells⟩ := h.path []
  rw [hstart] at hmoves
  have hcharted := (Cursor.charted_start setting.source.text).moves hmoves
  obtain ⟨-, ⟨d, hd, hfarthest⟩, hmax⟩ := hcharted.1
  obtain ⟨new, hnew, hplaces⟩ := htells.notices
  have hold (n : Notice) (hn : n ∈ t.notices) (place : Position) (hplace : n.place? = some place) :
      n.isActivation = true ∧ ∃ c ∈ t.scanner.cursor :: past, c.position = place := by
    rw [hnew] at hn
    obtain hn | hn := List.mem_append.1 hn
    · exact ⟨(hplaces n hn).1, (hplaces n hn).2 place hplace⟩
    · rw [hquiet n hn] at hplace
      cases hplace
  have hlocated : Located setting outcome (t.scanner.cursor :: past) := by
    intro e location he hlocation
    obtain hbroken | ⟨start, hstopped⟩ := houtcome _ he
    · exact htells.error e location hbroken hlocation
    · cases hstopped
      cases hlocation
      have hspan : Crossed setting.source (t.scanner.cursor :: past) _ := .at_moment hd
      rw [hfarthest] at hspan
      exact ⟨_, hspan, rfl, fun _ => isEmpty_span _ _⟩
  refine ⟨past, ⟨hmoves, hcharted, fun n hn place hplace => ?_, fun e location he hlocation => ?_,
    fun file place hn => ?_, fun P hP hworld => ?_⟩, hlocated⟩
  · obtain hn | hn := List.mem_append.1 (List.mem_reverse.1 hn)
    · exact ⟨d, hd, hfarthest.trans (hfront n hn place hplace).1.symm⟩
    · exact (hold n hn place hplace).2
  · obtain ⟨span, hspan, rfl, hempty⟩ := hlocated e location he hlocation
    exact ⟨hspan.lies hcharted, rfl, hempty⟩
  · obtain hn | hn := List.mem_append.1 (List.mem_reverse.1 hn)
    · obtain ⟨hplace, start, hstopped⟩ := hfront _ hn place rfl
      rw [hplace]
      exact ⟨hmax, start.info, hstopped⟩
    · cases (hold _ hn place rfl).1
  · exact htells.world P (fun run hrun ctx hctx => hP run hrun ctx (hctx.sees hcharted)) hworld

/-- A parse that cannot begin fails at no place, or at the start of the text. -/
theorem startFor_location {d : Domain V W} {g : Grammar} {args : List V} {e : ParseError}
    (h : startFor d g setting args = .error e) :
    e.location? = none ∨ e.location? =
      some (setting.location (.emptyAt setting.source.fileIndex Position.start)) := by
  simp only [startFor] at h
  split at h
  · cases h
    exact .inl rfl
  · split at h
    · cases h
      exact .inr rfl
    · split at h
      · cases h
      · cases h
        exact .inl rfl

theorem parseWithin_located (d : Domain V W) (g : Grammar) (text : Buffer) (options : Options V)
    (fuel : Nat) (world : W) :
    let setting := settingFor d g text options
    let run := runGrammar d g setting fuel options.args (.start options.log world)
    let report := parseWithin fuel d g text options world
    let last := (Ending.state run).scanner.cursor
    ∃ past, Surveyed setting world report (last :: past) ∧
      Located setting report.outcome (last :: past) := by
  intro setting run report last
  dsimp only [report]
  rw [parseWithin_eq]
  refine Report.of_ensures (P := fun report t => ∃ past,
    Surveyed setting world report (t.scanner.cursor :: past) ∧
      Located setting report.outcome (t.scanner.cursor :: past)) ?_
  have hquiet (start : Rule V W) : ∀ n ∈ (State.begun setting start options.args
      (.start options.log world)).notices, n.place? = none := by
    intro n hn
    cases List.mem_singleton.1 hn
    rfl
  have hend (start : Rule V W) (t : State V W) (e : Failure) (h : Charts setting
      (.begun setting start options.args (.start options.log world)) (some e) t) :
      ∃ past, Surveyed setting world
        (⟨.error e, t.scanner.log, t.notices.reverse, t.world⟩ : Report (Option V) W)
        (t.scanner.cursor :: past) ∧
          Located (α := Option V) setting (.error e) (t.scanner.cursor :: past) :=
    h.surveyed rfl (hquiet start) (.error e) _ [] (by simp) fun e' he => by
      cases he
      exact .inl rfl
  refine (charts_passage setting).runGrammar d g fuel (fun e hfail => ?_)
    (fun start e t _ ht => hend start t e ht) fun start t _ ht =>
      ⟨hend start t _ (ht.broken fun _ he => by cases he; rfl), fun v => ?_, ?_⟩
  · have hfailed : Charts setting (.start options.log world) (some (.error e))
        (.start options.log world) := by
      obtain hnowhere | hstart := startFor_location hfail
      · exact (Charts.refl _).broken fun _ he => by cases he; exact hnowhere
      · exact (Charts.refl _).failedHere hstart
    exact hfailed.surveyed rfl (by simp [State.start]) (.error (.error e)) _ [] (by simp)
      fun e' he => by cases he; exact .inl rfl
  · exact ht.surveyed rfl (hquiet start) (.ok v) _ [endNotice setting t true]
      (fun n hn place hplace => by cases List.mem_singleton.1 hn; cases hplace)
      fun e he => nomatch he
  · refine ht.surveyed rfl (hquiet start) (.error (.error (stopError setting start t))) _
      [endNotice setting t false] (fun n hn place hplace => ?_) fun e he => ?_
    · cases List.mem_singleton.1 hn
      exact ⟨(Option.some.inj hplace).symm, start, rfl⟩
    · cases he
      exact .inr ⟨start, rfl⟩

theorem parseWithin_surveyed (d : Domain V W) (g : Grammar) (text : Buffer) (options : Options V)
    (fuel : Nat) (world : W) :
    let setting := settingFor d g text options
    let run := runGrammar d g setting fuel options.args (.start options.log world)
    ∃ past, Surveyed setting world (parseWithin fuel d g text options world)
      ((Ending.state run).scanner.cursor :: past) :=
  (parseWithin_located d g text options fuel world).imp fun _ h => h.1

/-- A start rule that was evaluated to its end, but not through the whole input, makes the parse
fail where it came farthest. -/
theorem parseWithin_stopped {d : Domain V W} {g : Grammar} {text : Buffer} {options : Options V}
    {fuel : Nat} {world : W} {start : Rule V W} {m : Match}
    (hstart : startFor d g (settingFor d g text options) options.args = .ok start)
    (hrun : Step.evaluation (settingFor d g text options)
      (evalRule (settingFor d g text options) fuel) start options.args
      (.start options.log world) = .ok m t)
    (hflush : ∀ log, t.scanner.log = some log → log.sink.flush = true)
    (hstopped : (m.isHit && t.scanner.cursor.atEnd text) = false) :
    (parseWithin fuel d g text options world).outcome =
        .error (.error (stopError (settingFor d g text options) start t)) ∧
      (Ending.state (runGrammar d g (settingFor d g text options) fuel options.args
        (.start options.log world))).scanner.cursor = t.scanner.cursor := by
  rw [parseWithin_eq]
  refine Report.of_ensures (P := fun report u =>
    report.outcome = .error (.error (stopError (settingFor d g text options) start t)) ∧
      u.scanner.cursor = t.scanner.cursor) ?_
  rw [runGrammar_eq, hstart]
  dsimp only
  rw [runRule_eq, Step.ensures_bind, Step.ensures_iff_of_ok hrun, Step.ensures_bind,
    Step.ensures_flush_iff hflush]
  simp only [Step.conclusion, Step.ensures_bind, Step.ensures_get]
  have hnot : ¬(m.isHit && t.scanner.cursor.atEnd (settingFor d g text options).source.text) :=
    Bool.eq_false_iff.1 hstopped
  rw [if_neg hnot]
  exact ⟨rfl, rfl⟩

/-- An expectation that is not met is reported at the place where it began, with nothing read. -/
theorem evalParser_expectation_of_miss {call : RuleId → Step V W Match}
    (hread : ∀ id, Step.Reading setting.source.text (call id)) {body : LinkedParser V W}
    (hmiss : evalParser setting call body s = .ok .miss t) :
    evalParser setting call (.expectation body) s =
      .error (.error (.expectation body.render
        (setting.location (.emptyAt setting.source.fileIndex s.scanner.position)))) t := by
  have hstill := ((evalParser_reading setting hread body s).of_ok hmiss).position rfl
  have hfail : evalParser setting call (.expectation body) s =
      Step.failExpectingHere setting body.render s.scanner.position t := by
    rw [evalParser, Step.orElse, Step.bind_apply]
    show (evalParser setting call body >>= fun m => _) s = _
    rw [Step.bind_apply, hmiss]
    rfl
  rw [hfail, Span.emptyAt, ← hstill]
  rfl

/-- The places of a parse. At each moment of it, up to the end that it comes to, the cursor stands
at a place of the text, and the farthest place that it keeps is the farthest of those where it has
stood; whatever is noted, shown to an action or put into an error lies where the cursor stood. The
same holds of the way from the start to the end of each tree and each rule, wherever it starts. An
expectation that is not met is reported at the place where it began, and a parse that came to its
end before the input did, at the farthest place of all. -/
theorem parseWithin_places (d : Domain V W) (g : Grammar) (text : Buffer) (options : Options V)
    (fuel : Nat) (world : W) :
    let setting := settingFor d g text options
    let initial : State V W := .start options.log world
    let report := parseWithin fuel d g text options world
    let last := (Ending.state (runGrammar d g setting fuel options.args initial)).scanner.cursor
    (∃ past, Surveyed setting world report (last :: past)) ∧
    (∀ nesting id, Step.Along (Charts setting) (evalRule setting nesting id)) ∧
    (∀ nesting (p : LinkedParser V W), (∀ a body, .action a body ∈ p.parts → setting.Acts a.run) →
      Step.Along (Charts setting) (evalParser setting (evalRule setting nesting) p)) ∧
    (∀ nesting (body : LinkedParser V W) (s t : State V W),
      evalParser setting (evalRule setting nesting) body s = .ok .miss t →
      evalParser setting (evalRule setting nesting) (.expectation body) s =
        .error (.error (.expectation body.render
          (setting.location (.emptyAt setting.source.fileIndex s.scanner.position)))) t) ∧
    (∀ start m t, startFor d g setting options.args = .ok start →
      Step.evaluation setting (evalRule setting fuel) start options.args initial = .ok m t →
      (∀ log, t.scanner.log = some log → log.sink.flush = true) →
      (m.isHit && t.scanner.cursor.atEnd text) = false →
      last = t.scanner.cursor ∧
        report.outcome = .error (.error (.expectation start.info
          (setting.location (.emptyAt setting.source.fileIndex last.farthest))))) := by
  intro setting initial report last
  refine ⟨parseWithin_surveyed d g text options fuel world, (charts_passage setting).evalRule,
    fun nesting p hact => ?_, fun nesting body s t => ?_,
    fun start m t hstart hrun hflush hstopped => ?_⟩
  · exact (charts_passage setting).evalParser (evalRule_reading setting nesting)
      ((charts_passage setting).evalRule nesting) fun a body hpart =>
        charts_acts (hact a body hpart)
  · exact evalParser_expectation_of_miss (evalRule_reading setting nesting)
  · obtain ⟨houtcome, hlast⟩ := parseWithin_stopped hstart hrun hflush hstopped
    have hlast' : last = t.scanner.cursor := hlast
    exact ⟨hlast', by rw [hlast']; exact houtcome⟩

/-- A rule that reads beyond a line feed before it falls back to a single letter. -/
def branchGrammar : GrammarDecl Unit Unit where
  name := "branches"
  start := some "branch"
  rules := [{ name := "branch", definition :=
    .alternative (.seq [.char 'a', .char '\n', .char 'c', .char 'd']) (.char 'a') }]

def branchDomain : Domain Unit Unit := Domain.build {} [branchGrammar]

def branches : Grammar := branchDomain.grammars[0]?.get (by decide +kernel)

def branchText : Buffer := #['a', '\n', 'c', 'x']

/-- The start rule has matched one letter, so an expectation is reported behind that letter; the parse
fails on the second line, where the first way of reading came to. -/
theorem parseWithin_places_branch :
    let setting := settingFor branchDomain branches branchText {}
    let report := parseWithin 1 branchDomain branches branchText {} ()
    ∃ start t, startFor branchDomain branches setting [] = .ok start ∧
      Step.evaluation setting (evalRule setting 1) start [] (.start none ()) = .ok (.hit 1) t ∧
      t.scanner.position = ⟨1, 2, 1⟩ ∧
      report.outcome = .error (.error (.expectation "branch"
        (setting.location (.emptyAt 0 ⟨2, 2, 3⟩)))) ∧
      evalParser setting (evalRule setting 1) (.expectation (.char 'b')) t =
        .error (.error (.expectation "'b'" (setting.location (.emptyAt 0 ⟨1, 2, 1⟩)))) t := by
  intro setting report
  obtain ⟨-, -, -, hexpectation, hstopped⟩ :=
    parseWithin_places branchDomain branches branchText {} 1 ()
  refine ⟨_, _, rfl, rfl, rfl, ?_, hexpectation 1 (.char 'b') _ _ rfl⟩
  obtain ⟨hlast, houtcome⟩ := hstopped _ (.hit 1) _ rfl rfl nofun rfl
  rw [hlast] at houtcome
  exact houtcome

end AttrGrammar.Parse

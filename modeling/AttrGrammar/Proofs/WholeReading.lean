import AttrGrammar.Proofs.Denotation
import AttrGrammar.Proofs.WholeParse

/-! What a whole parse denotes: the reader of the start rule between two gaps, which has to leave
nothing of the text. In a domain whose rule table holds declared rules, this is the reader of the
start rule by its name. -/

namespace AttrGrammar.Peg
open Text

variable {V W : Type}

/-- Reads a gap, calls a rule and reads a gap again. -/
def Reader.whole (gap : Reader V W) (call : Callee V W) (args : List V) (w : List Char) (u : W) :
    Outcome (Option V) Unit W :=
  ((gap w (.ofLocals []) u).map (fun _ => ()) fun _ => ()).andThen fun rest _ u =>
    (call args rest u).andThen fun rest value u =>
      (gap rest (.ofLocals []) u).map (fun _ => value) fun _ => ()

/-- What a parse makes of the outcome for its whole text: the value of a hit that leaves nothing, or
the reason for which there is none. -/
def Outcome.concluded : Outcome (Option V) Unit W → Except Stop (Option V) × W
  | hit [] value u => (.ok value, u)
  | hit (_ :: _) _ u => (.error .expected, u)
  | miss _ u => (.error .expected, u)
  | stop why u => (.error why, u)

/-- Crossing a gap leaves the frame alone. -/
theorem Reader.gap_hit {ρ : Type} {skipRule : Option ρ} {call : Bool → ρ → Callee V W}
    {skips : Bool} {w rest : List Char} {f f' : Frame V} {u u' : W}
    (h : gap skipRule call skips w f u = .hit rest f' u') : f' = f := by
  unfold gap at h
  split at h
  · next rule =>
    unfold optional choice test at h
    cases hcall : call false rule [] w u with
    | hit rest' value u'' =>
        rw [hcall] at h
        cases h
        rfl
    | miss m u'' =>
        rw [hcall] at h
        cases h
        rfl
    | stop why u'' =>
        rw [hcall] at h
        cases h
  · cases h
    rfl

end AttrGrammar.Peg

namespace AttrGrammar.Parse
open Text Scan Peg

variable {V W : Type} {setting : Setting V W} {start : Rule V W} {s : State V W}

/-- A call of a rule, and behind a hit the gap that follows: the value of the call is kept. -/
theorem Step.Answers.trailed {x : Step V W Match} {call : Callee V W} {between : Step V W Unit}
    {gap : Reader V W} {text : Buffer} {depth : Nat} {skips : Bool}
    (hx : Step.Answers text depth skips start x call) (hgap : Step.Spans text depth skips between gap)
    {args : List V} (hs : s.Stands text depth skips) (hlength : args.length = start.inherited.length)
    (hstack : s.stack.values = args.reverse) :
    let trailed := (call args (s.rest text) s.world).andThen fun rest value u =>
      (gap rest s.frame u).map (fun _ => value) fun _ => ()
    (do
      let m ← x
      if m.isHit then between
      return m : Step V W Match).Ensures s
      (fun m t => t.scanner.log = none ∧ ∃ value : Option V,
        value.isSome = (m.isHit && start.hasValue) ∧ t.stack.values = value.toList ∧
        trailed = Step.answer text m value t)
      fun e t => trailed = .stop e.reason t.world := by
  intro trailed
  simp only [Step.ensures_bind, Step.ensures_ite, Step.ensures_pure]
  have hargs : s.stack.values = args.reverse ++ [] := by rw [hstack, List.append_nil]
  refine ((hx.reading s).and (hx.outcome s args [] hs hlength hargs)).mono (fun m after h => ?_)
    fun e t he => by simp only [trailed, he.2, Outcome.andThen_stop]
  obtain ⟨hreads, hlog, hframe, value, hvalue, hvalues, hv⟩ := h
  rw [List.append_nil] at hvalues
  simp only [trailed, hv]
  cases m with
  | miss =>
      rw [if_neg (by simp)]
      exact ⟨hlog, value, hvalue, hvalues, rfl⟩
  | hit n =>
      rw [if_pos (Match.isHit_hit n)]
      have hpast := hreads.past hs.inBounds
      have hafter : after.Stands text depth skips :=
        ⟨hpast.inBounds, (State.level_eq_iff.1 hpast.level).1.trans hs.depth,
          hpast.skips.trans hs.skips, hlog⟩
      have htrail := hgap after hafter
      rw [hframe] at htrail
      refine htrail.mono (fun _ t h => ?_) fun e t he => ?_
      · obtain ⟨⟨j, ht⟩, hv'⟩ := h
        refine ⟨ht.untraced, value, hvalue, by rw [ht.stack, hvalues], ?_⟩
        simp only [Step.answer, Outcome.andThen_hit, hv', Outcome.map_hit]
      · simp only [Step.answer, Outcome.andThen_hit, he, Outcome.map_stop]

/-- The start rule between two skips. -/
theorem runStart_denotes (hreadable : setting.Readable) (fuel : Nat)
    (hstart : setting.rules[start.id.index]? = some start) {args : List V}
    (hs : s.Stands setting.source.text 0 true) (hlength : args.length = start.inherited.length)
    (hstack : s.stack.values = args.reverse) (hframe : s.frame = .ofLocals []) :
    let call := ruleReader setting.rules setting.skipRule (setting.levels fuel 0)
    let whole := Reader.whole (.gap setting.skipRule call true) (call true start.id) args
      (s.rest setting.source.text) s.world
    (runStart setting fuel start.id).Ensures s
      (fun m t => t.scanner.log = none ∧ ∃ value : Option V,
        value.isSome = (m.isHit && start.hasValue) ∧ t.stack.values = value.toList ∧
        whole = Step.answer setting.source.text m value t)
      fun e t => whole = .stop e.reason t.world := by
  intro call whole
  have hcall := evalRule_answers hreadable fuel 0
  have hgap := hreadable.spans_gap hcall true
  rw [runStart, Step.ensures_bind]
  have hlead := hgap s hs
  rw [hframe] at hlead
  refine hlead.mono (fun _ before h => ?_) fun e t he => ?_
  · obtain ⟨⟨k, hbefore⟩, hv⟩ := h
    have hframe' : before.frame = .ofLocals [] := Reader.gap_hit hv
    have hwhole : whole = (call true start.id args (before.rest setting.source.text)
        before.world).andThen fun rest value u =>
          (Reader.gap setting.skipRule call true rest before.frame u).map (fun _ => value)
            fun _ => () := by
      show Reader.whole _ _ _ _ _ = _
      rw [Reader.whole, hv, hframe']
      rfl
    rw [hwhole]
    exact (hcall true start.id start hstart).trailed hgap (hbefore.stands hs) hlength
      (by rw [hbefore.stack, hstack])
  · show Reader.whole _ _ _ _ _ = _
    rw [Reader.whole, he]
    rfl

/-- A parse with a start rule returns what is concluded from reading the whole text. -/
theorem runRule_denotes (hreadable : setting.Readable) (fuel : Nat)
    (hstart : setting.rules[start.id.index]? = some start) {args : List V}
    (hlength : args.length = start.inherited.length) (world : W) :
    let call := ruleReader setting.rules setting.skipRule (setting.levels fuel 0)
    let whole := Reader.whole (.gap setting.skipRule call true) (call true start.id) args
      setting.source.text.toList world
    (runRule setting fuel start args).Ensures (.start none world)
      (fun r t => whole.concluded = (.ok r, t.world))
      fun e t => whole.concluded = (.error e.reason, t.world) := by
  intro call whole
  simp only [runRule, Step.ensures_bind, Step.ensures_note, Step.ensures_pushAll, flushing,
    Step.ensures_get]
  generalize hstate : State.owning _ (args.reverse ++ _) = pushed
  have hpushed : pushed.Stands setting.source.text 0 true := by
    rw [← hstate]
    exact ⟨Nat.zero_le _, rfl, rfl, rfl⟩
  have hstack : pushed.stack.values = args.reverse := by
    rw [← hstate]
    exact List.append_nil _
  have hwhole : whole = Reader.whole (.gap setting.skipRule call true) (call true start.id) args
      (pushed.rest setting.source.text) pushed.world := by
    rw [← hstate]
    rfl
  have hframe : pushed.frame = .ofLocals [] := by
    rw [← hstate]
    rfl
  rw [hwhole]
  refine (runStart_denotes hreadable fuel hstart hpushed hlength hstack hframe).mono
    (fun m t h => ?_) fun e t he => by rw [he]; rfl
  obtain ⟨hlog, value, hvalue, hvalues, hv⟩ := h
  rw [hv, hlog]
  simp only [Step.ensures_bind, Step.ensures_get, Step.ensures_ite, Step.ensures_note,
    Step.ensures_pure, Step.failExpecting, Step.ensures_fail]
  cases m with
  | miss => rfl
  | hit n =>
      have hend : t.scanner.cursor.atEnd setting.source.text = true ↔
          t.rest setting.source.text = [] := by
        simp [Cursor.atEnd, State.rest, Scanner.offset, List.drop_eq_nil_iff]
      rw [Match.isHit_hit, Bool.true_and, Step.answer]
      by_cases hrest : t.rest setting.source.text = []
      · rw [if_pos (hend.2 hrest), hrest]
        rw [Match.isHit_hit, Bool.true_and] at hvalue
        by_cases hdeclared : start.hasValue = true
        · rw [if_pos hdeclared]
          obtain ⟨v, rfl⟩ := Option.isSome_iff_exists.1 (hvalue.trans hdeclared)
          rw [ValueStack.peek?, hvalues]
          rfl
        · rw [if_neg hdeclared]
          have hnone : value = none := by simpa [hdeclared] using hvalue
          rw [hnone]
          rfl
      · rw [if_neg (mt hend.1 hrest)]
        obtain ⟨c, rest, hcons⟩ := List.exists_cons_of_ne_nil hrest
        rw [hcons]
        rfl

/-! ### Domains of declared rules -/

/-- Every action of the tree is the code that the declaration has under its name. -/
theorem textual_linkedIn {decl : RuleDecl V W} {decls : List (RuleDecl V W)}
    (h : ∀ a ∈ decl.actions, Textual a.run) :
    (decl.linkedIn decls).Every (fun _ _ => True) fun a => Textual a.run := by
  have hperform (name : String) : Textual (decl.perform name) := by
    unfold RuleDecl.perform
    cases hfind : decl.actions.find? (·.name == name) with
    | none => exact fun _ _ _ _ _ => rfl
    | some a => exact h a (List.mem_of_find?_eq_some hfind)
  exact Parser.every_map.2 ((Parser.every_trivial _).imp (fun _ _ _ => trivial)
    fun name _ => hperform name)

/-- A grammar of a domain whose rule table holds declared rules; it starts with one of them and
skips what another reads, if it skips anything. -/
structure Declares (d : Domain V W) (g : Grammar) (decls : List (RuleDecl V W))
    (skip : Option String) (start : RuleDecl V W) : Prop where
  linked : d.Linked
  mem : g ∈ d.grammars
  tabulates : Tabulates d.rules decls
  startRule : g.startRule = some (RuleDecl.place decls start.name)
  declared : decls.find? (·.name == start.name) = some start
  skipRule : g.skipRule = skip.map (RuleDecl.place decls)
  textual : ∀ decl ∈ decls, ∀ a ∈ decl.actions, Textual a.run

/-- How many activations may be nested in a parse of a text of some length. -/
def levelsFor (d : Domain V W) (length : Nat) : Nat :=
  if d.config.maxDepth = 0 then fuelFor d length else d.config.maxDepth

/-- In a linked domain readers can stand for the rules of a table that holds declared ones, with the
skip rule of each of its grammars. -/
theorem readable_settingFor {d : Domain V W} {g : Grammar} {decls : List (RuleDecl V W)}
    (hlinked : d.Linked) (hg : g ∈ d.grammars) (htabulates : Tabulates d.rules decls)
    (htextual : ∀ decl ∈ decls, ∀ a ∈ decl.actions, Textual a.run) (text : Buffer)
    (options : Options V) : (settingFor d g text options).Readable := by
  refine ⟨hlinked.table, hlinked.skipRule g hg, fun i rule hrule => ?_⟩
  obtain ⟨decl, hdecl, hdefinition⟩ := htabulates.declared hrule
  rw [hdefinition]
  exact textual_linkedIn (htextual decl hdecl)

namespace Declares

variable {d : Domain V W} {g : Grammar} {decls : List (RuleDecl V W)} {skip : Option String}
  {start : RuleDecl V W}

theorem readable (h : Declares d g decls skip start) (text : Buffer) (options : Options V) :
    (settingFor d g text options).Readable :=
  readable_settingFor h.linked h.mem h.tabulates h.textual text options

/-- The start rule as it stands in the rule table. -/
theorem startRule_at (h : Declares d g decls skip start) :
    ∃ rule, g.startRule.bind d.rule? = some rule ∧ rule.id = RuleDecl.place decls start.name ∧
      d.rules[rule.id.index]? = some rule ∧ rule.inherited = start.inherited ∧
      rule.valueType = start.valueType := by
  obtain ⟨rule, hrule, -, hinherited, hvalueType, -⟩ := h.tabulates.exists_rule h.declared
  have hid : rule.id = RuleDecl.place decls start.name := by
    rw [h.linked.place _ rule hrule, h.tabulates.index_place]
    rfl
  refine ⟨rule, ?_, hid, by rw [hid, hrule], hinherited, hvalueType⟩
  rw [h.startRule]
  exact hrule

end Declares

theorem levels_settingFor (d : Domain V W) (g : Grammar) (text : Buffer) (options : Options V) :
    (settingFor d g text options).levels (fuelFor d text.size) 0 = levelsFor d text.size := by
  have hfuel : d.config.maxDepth ≠ 0 → fuelFor d text.size = d.config.maxDepth + 1 :=
    fun h => if_pos (Nat.pos_of_ne_zero h)
  show (if d.config.maxDepth = 0 then _ else _) = if d.config.maxDepth = 0 then _ else _
  split
  · rfl
  · next h =>
    rw [hfuel h]
    show min (d.config.maxDepth + 1) (d.config.maxDepth - 0) = d.config.maxDepth
    omega

/-- A parse of an input that is short enough returns what is concluded from reading it whole with the
start rule, and does to the world what that does. -/
theorem parse_denotes {d : Domain V W} {g : Grammar} {decls : List (RuleDecl V W)}
    {skip : Option String} {start : RuleDecl V W} (h : Declares d g decls skip start)
    (text : Buffer) (options : Options V) (hlog : options.log = none)
    (hargs : options.args.length = start.inherited.length)
    (hshort : d.config.maxInputLength = 0 ∨ text.size ≤ d.config.maxInputLength) (world : W) :
    let call := declReader decls skip (levelsFor d text.size)
    let report := parse d g text options world
    (Reader.whole (.gap skip call true) (call true start.name) options.args text.toList
      world).concluded = (report.outcome.mapError Failure.reason, report.world) := by
  intro call report
  obtain ⟨rule, hstart, hid, hat, hinherited, -⟩ := h.startRule_at
  have hlength : options.args.length = rule.inherited.length := by rw [hargs, hinherited]
  have hadmitted : ¬ (d.config.maxInputLength > 0 && d.config.maxInputLength < text.size) = true := by
    simp only [Bool.and_eq_true, decide_eq_true_eq]
    omega
  let setting := settingFor d g text options
  let fuel := fuelFor d text.size
  have hstartFor : startFor d g setting options.args = .ok rule := by
    unfold startFor
    dsimp only
    rw [if_neg (by exact hadmitted), hstart]
    exact if_pos hlength
  have hrun : report = .ofRun (runRule setting fuel rule options.args (.start none world)) := by
    show parseWithin fuel d g text options world = _
    rw [parseWithin_eq, runGrammar_eq, hlog, hstartFor]
  have hcall (skips : Bool) (name : String) : ruleReader d.rules g.skipRule (setting.levels fuel 0)
      skips (RuleDecl.place decls name) = call skips name := by
    rw [levels_settingFor, h.skipRule]
    exact ruleReader_place h.tabulates skip _ skips name
  have hgap : Reader.gap g.skipRule (ruleReader d.rules g.skipRule (setting.levels fuel 0)) true =
      Reader.gap skip call true := by
    rw [h.skipRule, Reader.gap_map, ← h.skipRule]
    congr 1
    funext skips name
    exact hcall skips name
  have hdenotes : (runRule setting fuel rule options.args).Ensures (.start none world)
      (fun r t => (Reader.whole (.gap skip call true) (call true start.name) options.args
        text.toList world).concluded = (.ok r, t.world))
      fun e t => (Reader.whole (.gap skip call true) (call true start.name) options.args
        text.toList world).concluded = (.error e.reason, t.world) := by
    rw [← hgap, ← hcall, ← hid]
    exact runRule_denotes (h.readable text options) fuel hat hlength world
  rw [hrun]
  unfold Step.Ensures at hdenotes
  cases hresult : runRule setting fuel rule options.args (.start none world) with
  | ok r t =>
      rw [hresult] at hdenotes
      exact hdenotes
  | error e t =>
      rw [hresult] at hdenotes
      exact hdenotes

/-- A parse of an input that is too long fails and leaves the world alone. -/
theorem parse_tooLong {d : Domain V W} {g : Grammar} (text : Buffer)
    (hlong : ¬ (d.config.maxInputLength = 0 ∨ text.size ≤ d.config.maxInputLength))
    (options : Options V) (world : W) :
    (parse d g text options world).outcome =
        .error (.error (.inputTooLarge text.size d.config.maxInputLength)) ∧
      (parse d g text options world).world = world := by
  have hrefused : (d.config.maxInputLength > 0 && d.config.maxInputLength < text.size) = true := by
    simp only [Bool.and_eq_true, decide_eq_true_eq]
    omega
  have hrun : parse d g text options world = .ofRun ((Step.fail
      (.inputTooLarge text.size d.config.maxInputLength) : Step V W (Option V))
      (.start options.log world)) := by
    show parseWithin _ d g text options world = _
    rw [parseWithin_eq, runGrammar_eq]
    have hstartFor : startFor d g (settingFor d g text options) options.args =
        .error (.inputTooLarge text.size d.config.maxInputLength) := by
      unfold startFor
      dsimp only
      exact if_pos hrefused
    rw [hstartFor]
  rw [hrun]
  exact ⟨rfl, rfl⟩

end AttrGrammar.Parse

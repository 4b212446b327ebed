import AttrGrammar.Proofs.CppComments
import AttrGrammar.Proofs.CppSpacing
import AttrGrammar.Proofs.Insistence
import AttrGrammar.Proofs.Regrouping
import AttrGrammar.Proofs.Unwatched

/-! The skip rule of the grammars of expressions and statements. In every state of a parse it goes
behind the longest stretch of white space and comments ahead, misses where there is none, and breaks
off at the end of the text where a comment is not closed. -/

namespace AttrGrammar.Cpp
open Text Scan Peg Parse

/-! ### The rule -/

/-- One or more characters of white space or comments. -/
def spacingTree : LinkedParser Value Unit :=
  .plus <| .alternative (.oneOf .space) <| .alternative
    (.sequence (.literal "//") (.star (.difference .anyChar (.char '\n'))))
    (.seq [.literal "/*", .star (.difference .anyChar (.literal "*/")),
      .expectation (.literal "*/")])

/-- The place of the rule that both grammars skip. -/
def spacing : RuleId := RuleDecl.place allRules "Spacing"

/-- A setting with the rules of both grammars, in which spacing is skipped. -/
structure Spaced (setting : Setting Value Unit) : Prop where
  readable : setting.Readable
  tabulates : Tabulates setting.rules allRules
  skipRule : setting.skipRule = some spacing

variable {setting : Setting Value Unit} {s : State Value Unit}

theorem skipRule_domain {config : Config} {g : Grammar} (hg : g ∈ (domain config).grammars) :
    g.skipRule = some spacing := by
  have hmem : (g.qualifiedName, g.startRule, g.skipRule) ∈ (domain config).grammars.toList.map
      fun g => (g.qualifiedName, g.startRule, g.skipRule) :=
    List.mem_map_of_mem (Array.mem_toList_iff.2 hg)
  rw [grammars_domain] at hmem
  simp only [List.mem_cons, List.not_mem_nil, or_false, Prod.mk.injEq] at hmem
  obtain ⟨-, -, hskip⟩ | ⟨-, -, hskip⟩ := hmem
  · exact hskip
  · exact hskip

theorem spaced_settingFor {config : Config} {g : Grammar} (hg : g ∈ (domain config).grammars)
    (text : Buffer) (options : Options Value) : Spaced (settingFor (domain config) g text options) :=
  ⟨readable_settingFor (linked_domain config) hg (tabulates_domain config) textual_allRules text
    options, tabulates_domain config, skipRule_domain hg⟩

theorem Spaced.rule_at (h : Spaced setting) : ∃ rule, setting.rules[spacing.index]? = some rule ∧
    rule.inherited = [] ∧ rule.hasValue = false ∧ rule.definition = spacingTree := by
  have hat := h.tabulates.rule_at "Spacing"
  have hdecl : (allRules.find? (·.name == "Spacing")).map (fun decl =>
      (decl.locals, decl.inherited, decl.valueType, decl.linkedIn allRules)) =
      some ([], [], none, spacingTree) := by rfl
  rw [hdecl, Option.map_eq_some_iff] at hat
  obtain ⟨rule, hrule, hparts⟩ := hat
  simp only [Prod.mk.injEq] at hparts
  obtain ⟨-, hinherited, hvalue, hdefinition⟩ := hparts
  exact ⟨rule, hrule, hinherited, by rw [Rule.hasValue, hvalue]; rfl, hdefinition⟩

/-! ### Where it breaks off -/

/-- Spacing breaks off only where the text ends and a comment has not been closed. -/
theorem insists_spacing {call : RuleId → Step Value Unit Match}
    (hcall : ∀ id, Step.Reading setting.source.text (call id)) :
    Step.Insists setting "\"*/\"" (evalParser setting call spacingTree) := by
  have hline : Step.Insists setting "\"*/\"" (evalParser setting call
      (.sequence (.literal "//") (.star (.difference .anyChar (.char '\n'))))) :=
    .sequence hcall (.literal ..) <|
      .repeated hcall ((Step.Insists.scanOne ..).difference (.scanOne ..)) 0
  have hblock : Step.Insists setting "\"*/\"" (evalParser setting call
      (.seq [.literal "/*", .star (.difference .anyChar (.literal "*/")),
        .expectation (.literal "*/")])) := by
    show Step.Insists setting _ (Step.sequence _ (Step.sequence _ _ _) _)
    -- The search and the mark it ends at have to be taken together.
    rw [Step.sequence_assoc]
    exact .sequence hcall (.literal ..) (Step.insists_upTo hcall _ _)
  exact .repeated hcall ((Step.Insists.scanOne ..).alternative (hline.alternative hblock)) 1

theorem Spaced.ensures_atEnd (h : Spaced setting) (fuel : Nat) (hs : s.Idle setting)
    (hskipping : s.scanner.skipping = true) (hadmitted : ¬ setting.Refuses s.depth) :
    (evalRule setting (fuel + 1) spacing).Ensures s (fun _ _ => True)
      (Failure.AtEnd setting "\"*/\"") := by
  obtain ⟨rule, hrule, hinherited, hvalue, hdefinition⟩ := h.rule_at
  rw [evalRule, hrule]
  dsimp only
  rw [hdefinition]
  exact (insists_spacing (evalRule_reading setting fuel)).activate hinherited hvalue hs hskipping
    hadmitted

/-! ### What it reads -/

open Reader in
theorem readSpacing_eq (w : List Char) (u : Unit) :
    readSpacing .nothing [] w u =
      if "/*".toList <+: skipLayout w then .stop .expected u
      else if skipLayout w = w then .miss () u else .hit (skipLayout w) none u := by
  unfold readSpacing activation
  generalize (Frame.ofLocals []).bindInherited [] [] = f
  have hpiece := readPiece_eq w f u
  cases hbehind : behindPiece w with
  | none =>
    rw [hbehind] at hpiece
    dsimp only at hpiece
    rw [skipLayout_none hbehind, if_pos rfl, Reader.plus, hpiece]
    by_cases hopen : "/*".toList <+: w
    · rw [if_pos hopen, if_pos hopen]
      rfl
    · rw [if_neg hopen, if_neg hopen]
      rfl
  | some rest =>
    rw [hbehind] at hpiece
    have hlt := length_behindPiece_lt hbehind
    have hne : skipLayout rest ≠ w := by
      intro heq
      have hle := length_skipLayout_le rest
      rw [heq] at hle
      omega
    rw [skipLayout_some hbehind, if_neg hne, Reader.plus, hpiece, Outcome.andThen_hit,
      if_pos hlt, nothing_seq, iterate_progress, iterate_readPiece]
    by_cases hopen : "/*".toList <+: skipLayout rest
    · rw [if_pos hopen, if_pos hopen]
    · rw [if_neg hopen, if_neg hopen]
      rfl

/-- Where an activation is admitted a rule reads what it reads by its name. -/
theorem Spaced.answers_rule (h : Spaced setting) (fuel : Nat) {depth : Nat} (skips : Bool)
    {name : String} {rule : Rule Value Unit}
    (hrule : setting.rules[(RuleDecl.place allRules name).index]? = some rule)
    (hadmitted : ¬ setting.Refuses depth) :
    ∃ levels, Step.Answers setting.source.text depth skips rule
      (evalRule setting (fuel + 1) (RuleDecl.place allRules name))
      (readRule (gap levels skips) (reader levels skips) name) := by
  have hroom : setting.maxDepth = 0 ∨ depth < setting.maxDepth := by
    unfold Setting.Refuses at hadmitted
    omega
  obtain ⟨levels, hlevels⟩ : ∃ n, setting.levels (fuel + 1) depth = n + 1 := by
    refine ⟨setting.levels (fuel + 1) depth - 1, ?_⟩
    unfold Setting.levels
    split <;> omega
  have hmeans : ruleReader setting.rules setting.skipRule (setting.levels (fuel + 1) depth) skips
      (RuleDecl.place allRules name) = readRule (gap levels skips) (reader levels skips) name := by
    calc ruleReader setting.rules setting.skipRule (setting.levels (fuel + 1) depth) skips
          (RuleDecl.place allRules name)
        = ruleReader setting.rules ((some "Spacing").map (RuleDecl.place allRules)) (levels + 1)
            skips (RuleDecl.place allRules name) := by rw [h.skipRule, hlevels]; rfl
      _ = reader (levels + 1) skips name := ruleReader_place h.tabulates _ _ _ _
      _ = readRule (gap levels skips) (reader levels skips) name := reader_succ levels skips name
  refine ⟨levels, ?_⟩
  rw [← hmeans]
  exact evalRule_answers h.readable (fuel + 1) depth skips _ rule hrule

/-- Where an activation is admitted spacing means its reader. -/
theorem Spaced.answers (h : Spaced setting) (fuel : Nat) {depth : Nat} {rule : Rule Value Unit}
    (hrule : setting.rules[spacing.index]? = some rule) (hadmitted : ¬ setting.Refuses depth) :
    Step.Answers setting.source.text depth false rule (evalRule setting (fuel + 1) spacing)
      (readSpacing .nothing) := by
  obtain ⟨levels, hmeans⟩ := h.answers_rule fuel false hrule hadmitted
  exact hmeans

/-- A run of spacing while the skip rule runs ends as its reader does, also where a trace is written:
it breaks off only at the end of the text, so not for want of the trace. -/
theorem Spaced.ensures_read (h : Spaced setting) (fuel : Nat) (hs : s.Idle setting)
    (hskipping : s.scanner.skipping = true) (hadmitted : ¬ setting.Refuses s.depth) :
    (evalRule setting (fuel + 1) spacing).Ensures s
      (fun m t => Reads setting.source.text s m t ∧ ∃ value,
        readSpacing .nothing [] (s.rest setting.source.text) () =
          Step.answer setting.source.text m value t)
      fun e t => Failure.AtEnd setting "\"*/\"" e t ∧
        readSpacing .nothing [] (s.rest setting.source.text) () = .stop e.reason () := by
  obtain ⟨rule, hrule, hinherited, -, -⟩ := h.rule_at
  have hread := evalRule_reading setting (fuel + 1) spacing s
  have hbroken := h.ensures_atEnd fuel hs hskipping hadmitted
  have hunwatched := evalRule_unwatched setting (fuel + 1) spacing s
  have hskips : s.skips = false := by rw [State.skips, hskipping]; rfl
  have hanswers := (h.answers fuel hrule hadmitted).outcome (s.withLog none) []
    s.stack.values ⟨hs.inBounds, rfl, hskips, rfl⟩ (by rw [hinherited]; rfl) rfl
  apply Step.Ensures.mono (Step.ensures_self _ s)
  · intro m t hrun
    obtain ⟨-, -, value, -, -, hmeans⟩ := hanswers.of_ok (hunwatched.of_ok hrun)
    exact ⟨hread.of_ok hrun, value, hmeans⟩
  · intro e t hrun
    have hatEnd := hbroken.of_error hrun
    have hlog : e ≠ .error .log := by
      rintro rfl
      obtain hfuel | ⟨-, hexpected⟩ := hatEnd
      · cases hfuel
      · cases hexpected
    obtain ⟨u, hu⟩ := hunwatched.of_error hrun hlog
    exact ⟨hatEnd, hanswers.of_error hu⟩

/-- A run of spacing while the skip rule runs: it ends behind the layout at its place, having missed
where there is none, or it breaks off at the end of the text because a comment is not closed. -/
theorem Spaced.ensures_spacing (h : Spaced setting) (fuel : Nat) (hs : s.Idle setting)
    (hskipping : s.scanner.skipping = true) (hadmitted : ¬ setting.Refuses s.depth) :
    (evalRule setting (fuel + 1) spacing).Ensures s
      (fun m t => Reads setting.source.text s m t ∧
        ¬ "/*".toList <+: skipLayout (s.rest setting.source.text) ∧
        t.rest setting.source.text = skipLayout (s.rest setting.source.text) ∧
        (m = .miss ↔ skipLayout (s.rest setting.source.text) = s.rest setting.source.text))
      fun e t => "/*".toList <+: skipLayout (s.rest setting.source.text) ∧
        t.scanner.offset = setting.source.text.size ∧
        e = .error (.expectation "\"*/\""
          (setting.location (t.scanner.currentSpan setting.source))) := by
  refine (h.ensures_read fuel hs hskipping hadmitted).mono (fun m t hok => ?_) fun e t herror => ?_
  · obtain ⟨hreads, value, hmeans⟩ := hok
    rw [readSpacing_eq] at hmeans
    by_cases hopen : "/*".toList <+: skipLayout (s.rest setting.source.text)
    · rw [if_pos hopen] at hmeans
      cases m <;> cases hmeans
    · rw [if_neg hopen] at hmeans
      refine ⟨hreads, hopen, ?_⟩
      by_cases hnone : skipLayout (s.rest setting.source.text) = s.rest setting.source.text
      · rw [if_pos hnone] at hmeans
        cases m with
        | hit n => cases hmeans
        | miss =>
          have hoffset := congrArg Position.offset (hreads.position rfl)
          refine ⟨?_, iff_of_true rfl hnone⟩
          rw [hnone]
          exact congrArg setting.source.text.toList.drop hoffset
      · rw [if_neg hnone] at hmeans
        cases m with
        | miss => cases hmeans
        | hit n =>
          injection hmeans with hbehind
          exact ⟨hbehind.symm, iff_of_false Match.noConfusion hnone⟩
  · obtain ⟨hatEnd, hmeans⟩ := herror
    rw [readSpacing_eq] at hmeans
    by_cases hopen : "/*".toList <+: skipLayout (s.rest setting.source.text)
    · rw [if_pos hopen] at hmeans
      obtain rfl | hfailed := hatEnd
      · cases hmeans
      · exact ⟨hopen, hfailed⟩
    · rw [if_neg hopen] at hmeans
      by_cases hnone : skipLayout (s.rest setting.source.text) = s.rest setting.source.text
      · rw [if_pos hnone] at hmeans
        cases hmeans
      · rw [if_neg hnone] at hmeans
        cases hmeans

/-! ### As the skip rule -/

/-- A step that ends in the right way while the skip rule runs ends so as the skip rule. -/
theorem inSkip_of_ok {x : Step Value Unit Match} {m : Match} {t : State Value Unit}
    (h : x { s with scanner := s.scanner.beginSkip } = .ok m t) :
    Step.inSkip x s = .ok m { t with scanner := t.scanner.endSkip } := by
  rw [Step.inSkip, Step.between, h]

theorem inSkip_of_error {x : Step Value Unit Match} {e : Failure} {t : State Value Unit}
    (h : x { s with scanner := s.scanner.beginSkip } = .error e t) :
    Step.inSkip x s = .error e { t with scanner := t.scanner.endSkip } := by
  rw [Step.inSkip, Step.between, h]

theorem idle_beginSkip (hs : s.scanner.offset ≤ setting.source.text.size) :
    State.Idle setting { s with scanner := s.scanner.beginSkip } :=
  ⟨hs, State.Suppressed.activeSkip (.inl rfl) setting.skipRule⟩

theorem inSkip_refused (fuel : Nat) {rule : Rule Value Unit} {id : RuleId}
    (hrule : setting.rules[id.index]? = some rule) (hrefused : setting.Refuses s.depth) :
    ∃ t, Step.inSkip (evalRule setting (fuel + 1) id) s =
      .error (.error (setting.refusal rule s)) t := by
  have hrun : evalRule setting (fuel + 1) id { s with scanner := s.scanner.beginSkip } =
      .error (.error (setting.refusal rule s)) { s with scanner := s.scanner.beginSkip } :=
    evalRule_refused fuel hrule hrefused
  exact ⟨_, inSkip_of_error hrun⟩

/-- Where all comments are closed spacing ends behind the layout. -/
theorem Spaced.inSkip_closed (h : Spaced setting) (fuel : Nat)
    (hs : s.scanner.offset ≤ setting.source.text.size) (hadmitted : ¬ setting.Refuses s.depth)
    (hclosed : ¬ "/*".toList <+: skipLayout (s.rest setting.source.text)) :
    ∃ m t, Step.inSkip (evalRule setting (fuel + 1) spacing) s = .ok m t ∧
      t.depth = s.depth ∧ t.scanner.offset = s.scanner.offset + m.length ∧
      t.scanner.offset ≤ setting.source.text.size ∧
      t.rest setting.source.text = skipLayout (s.rest setting.source.text) ∧
      (m = .miss ↔ skipLayout (s.rest setting.source.text) = s.rest setting.source.text) := by
  have hspacing := h.ensures_spacing fuel (idle_beginSkip hs) rfl hadmitted
  cases hrun : evalRule setting (fuel + 1) spacing { s with scanner := s.scanner.beginSkip } with
  | error e t => exact absurd (hspacing.of_error hrun).1 hclosed
  | ok m t =>
    obtain ⟨hreads, -, hrest, hmiss⟩ := hspacing.of_ok hrun
    exact ⟨m, _, inSkip_of_ok hrun, (State.level_eq_iff.1 hreads.level).1, hreads.offset,
      hreads.inBounds hs, hrest, hmiss⟩

/-- Where all comments are closed spacing matches the longest stretch of layout. -/
theorem Spaced.inSkip_longest (h : Spaced setting) (fuel : Nat) {front : List Char}
    (hs : s.scanner.offset ≤ setting.source.text.size) (hadmitted : ¬ setting.Refuses s.depth)
    (hlongest : LongestLayout (s.rest setting.source.text) front
      (skipLayout (s.rest setting.source.text)))
    (hclosed : ¬ "/*".toList <+: skipLayout (s.rest setting.source.text)) :
    ∃ m t, Step.inSkip (evalRule setting (fuel + 1) spacing) s = .ok m t ∧
      t.depth = s.depth ∧ t.scanner.offset = s.scanner.offset + front.length ∧
      t.scanner.offset ≤ setting.source.text.size ∧
      t.rest setting.source.text = skipLayout (s.rest setting.source.text) ∧
      m = if front = [] then .miss else .hit front.length := by
  obtain ⟨m, t, hrun, hdepth, hoffset, hbound, hrest, hmiss⟩ :=
    h.inSkip_closed fuel hs hadmitted hclosed
  have hlength : m.length = front.length := by
    have hahead := congrArg List.length hlongest.split
    have hbehind := congrArg List.length hrest
    simp only [State.rest, List.length_drop, List.length_append, Array.length_toList]
      at hahead hbehind
    omega
  refine ⟨m, t, hrun, hdepth, by rw [hoffset, hlength], hbound, hrest, ?_⟩
  cases m with
  | miss => rw [if_pos (List.length_eq_zero_iff.1 hlength.symm)]
  | hit n =>
    obtain rfl : n = front.length := hlength
    rw [if_neg]
    rintro rfl
    exact Match.noConfusion (hmiss.2 hlongest.split.symm)

/-- Where a comment is not closed spacing breaks off at the end of the text. -/
theorem Spaced.inSkip_unclosed (h : Spaced setting) (fuel : Nat)
    (hs : s.scanner.offset ≤ setting.source.text.size) (hadmitted : ¬ setting.Refuses s.depth)
    (hopen : "/*".toList <+: skipLayout (s.rest setting.source.text)) :
    ∃ place t, place.offset = setting.source.text.size ∧
      Step.inSkip (evalRule setting (fuel + 1) spacing) s =
        .error (.error (.expectation "\"*/\""
          (setting.location (setting.source.span place place)))) t := by
  have hspacing := h.ensures_spacing fuel (idle_beginSkip hs) rfl hadmitted
  cases hrun : evalRule setting (fuel + 1) spacing { s with scanner := s.scanner.beginSkip } with
  | ok m t => exact absurd hopen (hspacing.of_ok hrun).2.1
  | error e t =>
    obtain ⟨-, hend, rfl⟩ := hspacing.of_error hrun
    exact ⟨t.scanner.position, _, hend, inSkip_of_error hrun⟩

/-- Wherever spacing is run as the skip rule, by either grammar and from any state that stands in the
text, it goes behind the longest stretch that is put together from white space and comments, and it
misses exactly where there is none. It fails, with the expectation at the end of the text, exactly
where a comment behind that stretch is never closed. Run again where it stopped it misses. Only
where no more activations may be opened is it refused like any other rule. -/
theorem inSkip_spacing {config : Config} {g : Grammar} {id : RuleId}
    (hg : g ∈ (domain config).grammars) (hid : g.skipRule = some id) (text : Buffer)
    (options : Options Value) (fuel : Nat) (s : State Value Unit)
    (hs : s.scanner.offset ≤ text.size) :
    let setting := settingFor (domain config) g text options
    let run := Step.inSkip (evalRule setting (fuel + 1) id)
    (setting.Refuses s.depth → ∃ rule t, setting.rules[id.index]? = some rule ∧
      run s = .error (.error (setting.refusal rule s)) t) ∧
    (¬ setting.Refuses s.depth → ∃ front back, LongestLayout (s.rest text) front back ∧
      (Unclosed back → ∃ place t, place.offset = text.size ∧
        run s = .error (.error (.expectation "\"*/\""
          (setting.location (setting.source.span place place)))) t) ∧
      (¬ Unclosed back → ∃ m t, run s = .ok m t ∧
        m = (if front = [] then .miss else .hit front.length) ∧
        t.scanner.offset = s.scanner.offset + front.length ∧
        ∃ u, run t = .ok .miss u ∧ u.scanner.offset = t.scanner.offset)) := by
  intro setting run
  have hspaced : Spaced setting := spaced_settingFor hg text options
  obtain rfl : id = spacing := Option.some.inj (hid.symm.trans (skipRule_domain hg))
  obtain ⟨rule, hrule, -⟩ := hspaced.rule_at
  refine ⟨fun hrefused => ⟨rule, ?_⟩, fun hadmitted => ?_⟩
  · obtain ⟨t, ht⟩ := inSkip_refused fuel hrule hrefused
    exact ⟨t, hrule, ht⟩
  · obtain ⟨front, hlongest⟩ := exists_longestLayout (s.rest text)
    refine ⟨front, skipLayout (s.rest text), hlongest, fun hopen => ?_, fun hclosed => ?_⟩
    · rw [unclosed_skipLayout_iff] at hopen
      exact hspaced.inSkip_unclosed fuel hs hadmitted hopen
    · rw [unclosed_skipLayout_iff] at hclosed
      obtain ⟨m, t, hrun, hdepth, hoffset, hbound, hrest, hm⟩ :=
        hspaced.inSkip_longest fuel hs hadmitted hlongest hclosed
      have hagain : skipLayout (t.rest text) = t.rest text := by
        rw [show t.rest text = skipLayout (s.rest text) from hrest, skipLayout_idem]
      obtain ⟨m', u, hrun', -, hoffset', -, -, hmiss'⟩ :=
        hspaced.inSkip_closed fuel hbound (by rwa [hdepth])
          (by rw [hrest, skipLayout_idem]; exact hclosed)
      obtain rfl : m' = .miss := hmiss'.2 hagain
      exact ⟨m, t, hrun, hm, hoffset, u, hrun', hoffset'⟩

/-- A comment, a blank and a letter: spacing goes up to the letter. -/
theorem inSkip_spacing_comment :
    let text := Buffer.ofString "/**/ x"
    let s : State Value Unit := .start none ()
    ∃ g, g ∈ (domain {}).grammars ∧ g.skipRule = some spacing ∧ s.scanner.offset ≤ text.size ∧
      ∃ m t, Step.inSkip (evalRule (settingFor (domain {}) g text {}) 1 spacing) s = .ok m t ∧
        t.scanner.offset = 5 := by
  intro text s
  obtain ⟨g, hg⟩ := exists_grammar {}
  refine ⟨g, hg, skipRule_domain hg, Nat.zero_le _, ?_⟩
  have hspacing := (inSkip_spacing hg (skipRule_domain hg) text {} 0 s (Nat.zero_le _)).2
  obtain ⟨front, back, hlongest, -, hclosed⟩ := hspacing fun hrefused =>
    absurd hrefused.1 (Nat.not_lt_of_le hrefused.2)
  have hempty : ¬ "*/".toList <:+: [] := by decide
  have hpieces : Pieces "/**/ ".toList "x".toList :=
    .cons (.block hempty _) (.cons (.blank (by decide) _) (.nil _))
  obtain rfl : back = "x".toList := by
    calc back = skipLayout (s.rest text) := hlongest.back_eq
      _ = skipLayout "x".toList := hpieces.skipLayout_eq
      _ = "x".toList := skipLayout_none (by decide)
  have hfront : front.length = 5 := by
    have hsplit := congrArg List.length hlongest.split
    rw [List.length_append] at hsplit
    exact Nat.add_right_cancel hsplit.symm
  have hended : ¬ Unclosed "x".toList := by
    rintro ⟨body, hbody, -⟩
    cases hbody
  obtain ⟨m, t, hrun, -, hoffset, -⟩ := hclosed hended
  exact ⟨m, t, hrun, by rw [hoffset, hfront]; rfl⟩

end AttrGrammar.Cpp

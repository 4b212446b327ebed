import AttrGrammar.Proofs.CallCongruence
import AttrGrammar.Proofs.Provision

/-! Whole parses with grammars in which nothing is ever missing. By induction on the fuel every rule
serves what it declares, whatever actions do where they would reject a match. So a parse returns a
value of the type that the start rule declares, or fails in a way that is foreseen, as long as there
is fuel. -/

namespace AttrGrammar.Parse
open Text Scan Peg

variable {V W : Type} {terms : Terms V W} {setting : Setting V W} {decls : List (RuleDecl V W)}
  {skip : Option String} {start : RuleDecl V W} {onAction : Action V W → Action V W}

/-- The rule that is skipped between others, if any, is declared and inherits nothing. -/
def PlainSkip (decls : List (RuleDecl V W)) (skip : Option String) : Prop :=
  ∀ name ∈ skip, ∃ target, decls.find? (·.name == name) = some target ∧ target.inherited = []

namespace Step

open Store

section

variable (onAction) {call call' : RuleId → Step V W Match}
  (hcall : ∀ name target, decls.find? (·.name == name) = some target →
    Serves setting.source terms target (call (RuleDecl.place decls name))
      (call' (RuleDecl.place decls name)))
  (hskipRule : setting.skipRule = skip.map (RuleDecl.place decls)) (hskip : PlainSkip decls skip)

include hcall hskipRule hskip

/-- Skipping leaves everything in its place. -/
theorem skip_meets (base : List V) (f : Frame V) :
    Meets setting.source terms.raises (Is terms base f) (Step.skip setting call)
      (Step.skip (setting.mapActions onAction) call') fun _ => Is terms base f := by
  refine Meets.skip fun rule hrule => ?_
  rw [hskipRule] at hrule
  obtain ⟨name, hname, rfl⟩ := Option.map_eq_some_iff.1 hrule
  obtain ⟨target, htarget, hinherited⟩ := hskip name hname
  exact ⟨target, (hcall name target htarget).plain hinherited base f⟩

/-- A rule whose calls serve what is declared does so itself. -/
theorem activate_serves (hkept : terms.Kept decls) (htable : Tabulates setting.rules decls)
    (hsame : ∀ a ctx, (a.run ctx).pass = true → (onAction a).run ctx = a.run ctx) {decl : RuleDecl V W}
    (hdecl : decl ∈ decls) {rule : Rule V W} (hinherited : rule.inherited = decl.inherited)
    (hlocals : rule.locals = decl.locals) (hvalueType : rule.valueType = decl.valueType)
    (hdefinition : rule.definition = decl.linkedIn decls) :
    Serves setting.source terms decl
      (activate setting rule (evalParser setting call rule.definition))
      (activate setting rule (evalParser (setting.mapActions onAction) call'
        (rule.mapActions onAction).definition)) := by
  intro args base f hargs
  have hpasses := hkept.passes decl hdecl
  unfold RuleDecl.passes at hpasses
  split at hpasses
  · cases hpasses
  · next hit miss hflow =>
    let exchange : Exchange V W :=
      { terms, setting, decls, decl, onAction, call, call', base
        kept := hkept, table := htable, declared := hdecl, same := hsame, serves := hcall
        skips := skip_meets onAction hcall hskipRule hskip base }
    have htree := exchange.follows (hkept.handsOn decl hdecl) _ _ _ hflow
    rw [Rule.mapActions, hdefinition]
    exact Meets.activate rule fun place =>
      Meets.evaluate place hinherited hlocals hvalueType hpasses hargs htree

end

namespace Meets

variable {source : Source} {base : List V} {f : Frame V} {P : Store V W → Prop}

theorem note (notice : Notice) : Meets source terms.raises P (Step.note notice) (Step.note notice)
    fun _ => P := fun _ hs => ⟨rfl, hs⟩

theorem pushAll (args : List V) :
    Meets source terms.raises (Is terms base f) (args.forM Step.push) (args.forM Step.push)
      fun _ => Is terms (args.reverse ++ base) f := by
  induction args generalizing base with
  | nil => exact pure fun _ => id
  | cons v rest ih =>
      refine bind (push (Q := Is terms (v :: base) f) v fun σ hσ => ⟨congrArg (v :: ·) hσ.1, hσ.2⟩)
        fun _ => ?_
      rw [List.reverse_cons, List.append_assoc]
      exact ih

theorem flush : Meets source terms.raises P (Step.flush : Step V W Unit) Step.flush fun _ => P := by
  refine aside fun s => ?_
  simp only [Step.flush, ensures_bind, ensures_get]
  split
  · rw [ensures_ite]
    split
    · rfl
    · exact fun _ => .log
  · rfl

/-- The end of a parse whose start rule has left the value it declares. -/
theorem conclusion (rule : Rule V W) (hvalueType : rule.valueType = start.valueType) (m : Match) :
    Meets setting.source terms.raises (ends (Answered terms start [] f) (Is terms [] f) m)
      (Step.conclusion setting rule m) (Step.conclusion setting rule m)
      fun r _ => r.toList.map terms.typeOf = start.valueType.toList := by
  refine look fun s hs => ?_
  dsimp only
  split
  · next hended =>
    cases m with
    | miss => cases hended
    | hit n =>
        obtain ⟨values, hvalues, hstack, -⟩ := hs
        rw [List.append_nil] at hstack
        refine bind (note _) fun _ => ?_
        split
        · refine look fun t ht => pure fun σ _ => ?_
          have htop : t.stack.peek? = values.head? := by
            rw [← hstack, ← ht]
            rfl
          rw [htop]
          cases htype : start.valueType with
          | none =>
              rw [htype] at hvalues
              rw [List.map_eq_nil_iff.1 hvalues]
              rfl
          | some type =>
              rw [htype] at hvalues
              obtain ⟨v, rfl, hv⟩ := List.map_eq_singleton_iff.1 hvalues
              exact congrArg (fun type => [type]) hv
        · next hvalued =>
          refine pure fun σ _ => ?_
          have hnone : start.valueType = none := hvalueType ▸ Rule.not_hasValue_iff.1 hvalued
          rw [hnone]
          rfl
  · exact bind (note _) fun _ => fun t _ => ⟨rfl, fun _ => .expectation _ _⟩

end Meets

section

variable (hkept : terms.Kept decls) (htable : Tabulates setting.rules decls)
  (hskipRule : setting.skipRule = skip.map (RuleDecl.place decls)) (hskip : PlainSkip decls skip)
  (hsame : ∀ a ctx, (a.run ctx).pass = true → (onAction a).run ctx = a.run ctx) (fuel : Nat)

include hkept htable hskipRule hskip hsame

/-- Every rule of a grammar that keeps to its terms serves what it declares. -/
theorem evalRule_serves (name : String) (target : RuleDecl V W)
    (htarget : decls.find? (·.name == name) = some target) :
    Serves setting.source terms target (evalRule setting fuel (RuleDecl.place decls name))
      (evalRule (setting.mapActions onAction) fuel (RuleDecl.place decls name)) := by
  induction fuel generalizing name target with
  | zero => exact fun _ _ _ _ => .exhausted
  | succ fuel ih =>
      obtain ⟨rule, hrule, hlocals, hinherited, hvalueType, hdefinition⟩ :=
        htable.exists_rule htarget
      have hrule' := Setting.rule_mapActions hrule onAction
      rw [evalRule, evalRule, hrule, hrule']
      dsimp only
      rw [activate_mapActions]
      exact activate_serves onAction ih hskipRule hskip hkept htable hsame
        (List.mem_of_find?_eq_some htarget) hinherited hlocals hvalueType hdefinition

variable {rule : Rule V W} {args : List V} (hdeclared : decls.find? (·.name == start.name) = some start)
  (hid : rule.id = RuleDecl.place decls start.name)
  (hargs : args.map terms.typeOf = start.inherited.map terms.attributeType)

include hdeclared hid hargs

/-- From arguments of the right types the evaluation of rules leaves the value of the start rule. -/
theorem evaluation_meets (f : Frame V) :
    Meets setting.source terms.raises (Is terms [] f)
      (evaluation setting (evalRule setting fuel) rule args)
      (evaluation (setting.mapActions onAction) (evalRule (setting.mapActions onAction) fuel)
        (rule.mapActions onAction) args)
      (ends (Answered terms start [] f) (Is terms [] f)) := by
  have hserves := evalRule_serves hkept htable hskipRule hskip hsame fuel
  have hgap (base : List V) := skip_meets onAction hserves hskipRule hskip base f
  refine .bind (Meets.note _) fun _ => .bind (Meets.pushAll args) fun _ => .bind (hgap _) fun _ => ?_
  show Meets _ _ _ (evalRule setting fuel rule.id >>= _) (evalRule _ fuel rule.id >>= _) _
  rw [hid]
  refine .bindMatch (hserves _ start hdeclared args [] f hargs) (fun n => ?_) (.pure fun _ => id)
  refine .bind (A := fun _ => Answered terms start [] f) (fun s hs => ?_) fun _ => .pure fun _ => id
  -- What the start rule has left is one more thing that skipping leaves in its place.
  obtain ⟨values, hvalues, hstore⟩ := hs
  obtain ⟨hrun, hends⟩ := hgap (values ++ []) s hstore
  exact ⟨hrun, hends.imp fun _ _ ht => ⟨values, hvalues, ht⟩⟩

theorem runRule_meets (hvalueType : rule.valueType = start.valueType) (f : Frame V) :
    Meets setting.source terms.raises (Is terms [] f) (runRule setting fuel rule args)
      (runRule (setting.mapActions onAction) fuel (rule.mapActions onAction) args)
      fun r _ => r.toList.map terms.typeOf = start.valueType.toList := by
  rw [runRule_eq, runRule_eq]
  exact .bind (evaluation_meets hkept htable hskipRule hskip hsame fuel hdeclared hid hargs f)
    fun m => .bind Meets.flush fun _ => .conclusion rule hvalueType m

end

end Step

/-- How a parse ends that returns a value if the start rule declares one, of the type declared, or
fails in a way that is foreseen, unless fuel is lacking. -/
def Provided (source : Source) (terms : Terms V W) (start : RuleDecl V W) :
    Except Failure (Option V) → Prop
  | .ok r => r.toList.map terms.typeOf = start.valueType.toList
  | .error e => e ≠ .outOfFuel → e.Foreseen source terms.raises

theorem Step.Ensures.provided {source : Source} {x : Step V W (Option V)} {s : State V W}
    (h : x.Ensures s (fun r _ => r.toList.map terms.typeOf = start.valueType.toList)
      fun e _ => e ≠ .outOfFuel → e.Foreseen source terms.raises) :
    Provided source terms start (Report.ofRun (x s)).outcome := by
  cases hrun : x s with
  | ok r t => exact h.of_ok hrun
  | error e t => exact h.of_error hrun

namespace Declares

variable {d : Domain V W} {g : Grammar}

/-- With other actions the same rule starts a parse, unless the input is too long. -/
theorem startFor_mapActions (h : Declares d g decls skip start)
    (onAction : Action V W → Action V W) (text : Buffer) (options : Options V)
    (hlength : options.args.length = start.inherited.length) :
    let startFor (d : Domain V W) := startFor d g (settingFor d g text options) options.args
    (∃ length limit, startFor d = .error (.inputTooLarge length limit) ∧
        startFor (d.mapActions onAction) = .error (.inputTooLarge length limit)) ∨
      ∃ rule, rule.id = RuleDecl.place decls start.name ∧ rule.valueType = start.valueType ∧
        startFor d = .ok rule ∧ startFor (d.mapActions onAction) = .ok (rule.mapActions onAction) := by
  intro startFor
  obtain ⟨rule, hrule, hid, -, hinherited, hvalueType⟩ := h.startRule_at
  have hrule' : g.startRule.bind (d.mapActions onAction).rule? = some (rule.mapActions onAction) := by
    obtain ⟨id, hstart, hfound⟩ := Option.bind_eq_some_iff.1 hrule
    have hfound' : d.rules[id.index]? = some rule := hfound
    rw [hstart]
    show (d.rules.map (·.mapActions onAction))[id.index]? = _
    rw [Array.getElem?_map, hfound', Option.map_some]
  have hadmitted : options.args.length = rule.inherited.length := by rw [hlength, hinherited]
  simp only [startFor, Parse.startFor, hrule, hrule']
  by_cases hlong : d.config.maxInputLength > 0 && d.config.maxInputLength < text.size
  · exact .inl ⟨_, _, if_pos hlong, if_pos hlong⟩
  · refine .inr ⟨rule, hid, hvalueType, (if_neg hlong).trans ?_, (if_neg hlong).trans ?_⟩
    · exact if_pos hadmitted
    · exact if_pos hadmitted

/-- A parse with a grammar that keeps to its terms does the same with actions that do something else
in place of rejecting a match, and it ends as its start rule declares or as foreseen. -/
theorem parse_provided (h : Declares d g decls skip start) (hkept : terms.Kept decls)
    (hskip : PlainSkip decls skip) (onAction : Action V W → Action V W)
    (hsame : ∀ a ctx, (a.run ctx).pass = true → (onAction a).run ctx = a.run ctx) (text : Buffer)
    {options : Options V}
    (hargs : options.args.map terms.typeOf = start.inherited.map terms.attributeType) {world : W}
    (hworld : terms.worlds world) :
    parse (d.mapActions onAction) g text options world = parse d g text options world ∧
      Provided ⟨text, options.fileIndex, options.fileName⟩ terms start
        (parse d g text options world).outcome := by
  have hfuel : fuelFor (d.mapActions onAction) text.size = fuelFor d text.size := by
    simp [fuelFor, Domain.mapActions]
  have hrun (d : Domain V W) : parse d g text options world = .ofRun (runGrammar d g
      (settingFor d g text options) (fuelFor d text.size) options.args
      (.start options.log world)) := parseWithin_eq _ d g text options world
  have hlength : options.args.length = start.inherited.length := by
    simpa using congrArg List.length hargs
  rw [hrun, hrun, hfuel, runGrammar_eq, runGrammar_eq]
  have hstart := h.startFor_mapActions onAction text options hlength
  dsimp only at hstart
  rcases hstart with ⟨length, limit, hlong, hlong'⟩ | ⟨rule, hid, hvalueType, hstart, hstart'⟩
  · rw [hlong, hlong']
    exact ⟨rfl, fun _ => .inputTooLarge length limit⟩
  · rw [hstart, hstart']
    have hskipRule : (settingFor d g text options).skipRule = skip.map (RuleDecl.place decls) :=
      h.skipRule
    obtain ⟨hsame, hends⟩ := Step.runRule_meets hkept h.tabulates hskipRule hskip hsame
      (fuelFor d text.size) h.declared hid hargs hvalueType (.ofLocals []) (.start options.log world)
      ⟨rfl, rfl, hworld⟩
    exact ⟨congrArg Report.ofRun hsame, hends.provided⟩

end Declares

end AttrGrammar.Parse

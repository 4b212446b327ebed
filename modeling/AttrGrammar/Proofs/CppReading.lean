import Mathlib
import AttrGrammar.Proofs.NameMap
import AttrGrammar.Proofs.WholeReading
import AttrGrammar.Cpp.Parse

/-! The grammars of expressions and of statements as readers. The domain that they are parsed with
holds the rules of both, one list behind the other. Apart from the two actions that make an operand
of a word, no action looks at the text; so a text is parsed as the reader of the start rule reads it
between two gaps. -/

namespace AttrGrammar.Peg
open Text

variable {V W : Type}

/-- The action has regard to nothing but its frame. -/
def Textless (run : ActionContext V W → ActionContext V W) : Prop :=
  ∀ (ctx : ActionContext V W) (text : Slice) (span : Span) (fileName : String),
    run { ctx with text, span, fileName } = { run ctx with text, span, fileName }

theorem Textless.textual {run : ActionContext V W → ActionContext V W} (h : Textless run) :
    Textual run := fun ctx text span fileName _ => h ctx text span fileName

/-- What such an action makes of a frame does not depend on what was read. -/
theorem Textless.of_eq {run : ActionContext V W → ActionContext V W} (h : Textless run)
    (f : Frame V) (text text' : List Char) (u : W) :
    run (.of f text' u) =
      { run (.of f text u) with
        text := wholeText text', span := .emptyAt 0 .start, fileName := "" } :=
  h (.of f text u) (wholeText text') (.emptyAt 0 .start) ""

end AttrGrammar.Peg

namespace AttrGrammar.Cpp
open Text Peg Parse

namespace Context

theorem textless_passOn (instanceName : String) : Textless (passOn instanceName) := by
  intro ctx text span fileName
  unfold passOn takeExpression ActionContext.takeInstance
  dsimp only
  cases (ctx.frame.takeInstance instanceName).1.bind Value.expression? <;> rfl

theorem textless_applyUnary (op : UnaryOp) : Textless (applyUnary op) := by
  intro ctx text span fileName
  unfold applyUnary takeExpression ActionContext.takeInstance
  dsimp only
  cases (ctx.frame.takeInstance "Unary").1.bind Value.expression? <;> rfl

theorem textless_rememberOperator (op : BinaryOp) : Textless (rememberOperator op) :=
  fun _ _ _ _ => rfl

theorem textless_combine (operand : String) : Textless (combine operand) := by
  intro ctx text span fileName
  unfold combine takeExpression ActionContext.takeInstance
  dsimp only
  split <;> rfl

theorem textual_readInteger : Textual readInteger := by
  intro ctx text span fileName h
  have htext : toString text = toString ctx.text := congrArg String.ofList h
  unfold readInteger
  dsimp only
  rw [h, htext]
  split <;> rfl

theorem textual_readIdentifier : Textual readIdentifier := by
  intro ctx text span fileName h
  have htext : toString text = toString ctx.text := congrArg String.ofList h
  unfold readIdentifier
  dsimp only
  rw [htext]
  rfl

theorem textless_passStatement : Textless passStatement := by
  intro ctx text span fileName
  unfold passStatement takeStatement ActionContext.takeInstance
  dsimp only
  cases (ctx.frame.takeInstance "statement").1.bind Value.statement? <;> rfl

theorem textless_setStatement (s : Statement) : Textless (setStatement s) := fun _ _ _ _ => rfl

theorem textless_addStatement : Textless addStatement := by
  intro ctx text span fileName
  unfold addStatement takeStatement ActionContext.takeInstance
  dsimp only
  cases (ctx.frame.takeInstance "Statement").1.bind Value.statement? <;> rfl

theorem textless_setConditional (make : Expression → Statement → Statement) :
    Textless (setConditional make) := by
  intro ctx text span fileName
  unfold setConditional takeExpression takeStatement ActionContext.takeInstance
  dsimp only
  split <;> rfl

theorem textless_addElse : Textless addElse := by
  intro ctx text span fileName
  unfold addElse takeStatement ActionContext.takeInstance
  dsimp only
  cases (ctx.frame.takeInstance "Statement").1.bind Value.statement? <;> rfl

theorem textless_setReturn : Textless setReturn := fun _ _ _ _ => rfl

theorem textless_setExpressionStatement : Textless setExpressionStatement := by
  intro ctx text span fileName
  unfold setExpressionStatement takeExpression ActionContext.takeInstance
  dsimp only
  cases (ctx.frame.takeInstance "Expression").1.bind Value.expression? <;> rfl

end Context

/-- The rules of both grammars as they stand in the rule table. -/
def allRules : List (RuleDecl Value Unit) := expressionRules ++ statementRules

open Context in
theorem textual_binaryLevel (name info operand : String)
    (operators : List (String × BinaryOp)) :
    ∀ a ∈ (binaryLevel name info operand operators).actions, Textual a.run := by
  intro a ha
  simp only [binaryLevel, List.mem_append, List.mem_cons, List.not_mem_nil, or_false,
    List.mem_mapIdx] at ha
  rcases ha with (rfl | rfl) | ⟨i, hi, rfl⟩
  · exact (textless_passOn operand).textual
  · exact (textless_combine operand).textual
  · exact (textless_rememberOperator _).textual

open Context in
theorem textual_allRules : ∀ decl ∈ allRules, ∀ a ∈ decl.actions, Textual a.run := by
  simp only [allRules, expressionRules, statementRules, List.forall_mem_append,
    List.forall_mem_cons, List.not_mem_nil, false_implies, implies_true, and_true]
  exact ⟨⟨(textless_passOn _).textual, textual_binaryLevel _ _ _ _, textual_binaryLevel _ _ _ _,
      textual_binaryLevel _ _ _ _, textual_binaryLevel _ _ _ _, textual_binaryLevel _ _ _ _,
      textual_binaryLevel _ _ _ _,
      ⟨(textless_applyUnary _).textual, (textless_applyUnary _).textual,
        (textless_passOn _).textual⟩,
      ⟨(textless_passOn _).textual, (textless_passOn _).textual, (textless_passOn _).textual⟩,
      textual_readInteger, textual_readIdentifier⟩,
    textless_passStatement.textual,
    ⟨(textless_setStatement _).textual, textless_addStatement.textual⟩,
    ⟨(textless_setConditional _).textual, textless_addElse.textual⟩,
    (textless_setConditional _).textual, textless_setReturn.textual,
    (textless_setStatement _).textual, textless_setExpressionStatement.textual⟩

/-- The rule table holds the rules of both grammars as they are declared. -/
theorem tabulates_domain (config : Config) : Tabulates (domain config).rules allRules :=
  ⟨by decide, rfl⟩

theorem domain_eq_build (config : Config) :
    domain config = .build config [expressionGrammar, statementGrammar] := by rfl

theorem config_domain (config : Config) : (domain config).config = config := by
  rw [domain_eq_build]
  rfl

theorem size_domain (config : Config) : (domain config).rules.size = 19 := by
  have hlength := congrArg List.length (tabulates_domain config).entries
  simpa [allRules, expressionRules, statementRules] using hlength

theorem linked_domain (config : Config) : (domain config).Linked := by
  have hsize := size_domain config
  rw [domain_eq_build] at hsize ⊢
  exact Domain.linked_build config _ (by rw [hsize]; decide)

/-- The grammar of expressions comes first, and both grammars skip spacing. -/
theorem grammars_domain (config : Config) :
    (domain config).grammars.toList.map (fun g => (g.qualifiedName, g.startRule, g.skipRule)) =
      [("cpp.ExpressionGrammar", some (RuleDecl.place allRules "Expression"),
          some (RuleDecl.place allRules "Spacing")),
        ("cpp.StatementGrammar", some (RuleDecl.place allRules "CompoundStatement"),
          some (RuleDecl.place allRules "Spacing"))] := by rfl

theorem size_grammars (config : Config) : (domain config).grammars.size = 2 := by
  have hlength := congrArg List.length (grammars_domain config)
  rwa [List.length_map, Array.length_toList] at hlength

theorem exists_grammar (config : Config) : ∃ g, g ∈ (domain config).grammars := by
  have hsize : 0 < (domain config).grammars.size := by
    rw [size_grammars]
    exact Nat.succ_pos _
  exact ⟨_, Array.getElem_mem hsize⟩

/-- A grammar that is found by its name starts with a declared rule and skips spacing. -/
theorem require_domain (config : Config) (name : String) (start : RuleDecl Value Unit)
    (hdeclared : allRules.find? (·.name == start.name) = some start)
    (hname : ((domain config).grammars.toList.map fun g =>
        (g.qualifiedName, g.startRule, g.skipRule)).find? (·.1 == name) =
      some (name, some (RuleDecl.place allRules start.name),
        some (RuleDecl.place allRules "Spacing"))) :
    ∃ g : Grammar, require (domain config) name = .ok g ∧
      Declares (domain config) g allRules (some "Spacing") start := by
  rw [List.find?_map, Option.map_eq_some_iff] at hname
  obtain ⟨g, hg, hparts⟩ := hname
  simp only [Prod.mk.injEq] at hparts
  obtain ⟨hfound, hstart, hskip⟩ := hparts
  have hmem : g ∈ (domain config).grammars :=
    Array.mem_toList_iff.1 (List.mem_of_find?_eq_some hg)
  have hcount : (domain config).grammars.size ≤ UInt32.size := by
    rw [size_grammars]
    decide
  have hindexed : (domain config).Indexed := by
    rw [domain_eq_build]
    exact Domain.indexed_build config _
  refine ⟨g, ?_, linked_domain config, hmem, tabulates_domain config, hstart, hdeclared, hskip,
    textual_allRules⟩
  rw [require, (hindexed.grammar?_eq_some hcount).2 ⟨hmem, hfound⟩]

/-- How many activations may be nested in a parse of an input of some length. -/
def levels (config : Config) (length : Nat) : Nat :=
  if config.maxDepth = 0 then 20 * (length + 2) + UInt32.size else config.maxDepth

theorem levelsFor_domain (config : Config) (length : Nat) :
    levelsFor (domain config) length = levels config length := by
  unfold levelsFor levels fuelFor
  rw [config_domain, size_domain]
  split
  · next h => rw [if_neg (by omega)]
  · rfl

/-- The rules of both grammars by their names, where so many activations may be nested. -/
def reader (levels : Nat) (skips : Bool) (rule : String) : Callee Value Unit :=
  declReader allRules (some "Spacing") levels skips rule

/-- What lies between the parts of a rule. -/
def gap (levels : Nat) (skips : Bool) : Reader Value Unit :=
  .gap (some "Spacing") (reader levels) skips

/-- What a whole text is read as, by the reader of a rule between two gaps. -/
def readWhole (levels : Nat) (rule : String) (text : List Char) :
    Outcome (Option Value) Unit Unit :=
  Reader.whole (gap levels true) (reader levels true rule) [] text ()

/-- The result that is picked from an outcome for a whole text. -/
def picked {α : Type} (pick : Value → Option α) (o : Outcome (Option Value) Unit Unit) :
    Option α :=
  o.concluded.1.toOption.bind (·.bind pick)

variable {α : Type}

/-- Where the input is short enough, what a parse returns is picked from what the text is read as. -/
theorem parseAs_denotes {pick : Value → Option α} {grammar : GrammarDecl Value Unit}
    {name : String} {start : RuleDecl Value Unit} {config : Config} {g : Grammar}
    (input fileName : String)
    (hg : require (domain config) grammar.qualifiedName = .ok g)
    (hdeclares : Declares (domain config) g allRules (some "Spacing") start)
    (hinherited : start.inherited = [])
    (hshort : config.maxInputLength = 0 ∨ input.toList.length ≤ config.maxInputLength) :
    (parseAs pick grammar name config input { fileName }).outcome.toOption =
      picked pick (readWhole (levels config input.toList.length) start.name input.toList) := by
  have hlength : (Buffer.ofString input).size = input.toList.length := by simp [Buffer.ofString]
  have hparse := parse_denotes hdeclares (Buffer.ofString input) { fileName } rfl
    (by rw [hinherited]; rfl) (by rw [config_domain, hlength]; exact hshort) ()
  rw [levelsFor_domain, hlength] at hparse
  have hpicked : picked pick
      (readWhole (levels config input.toList.length) start.name input.toList) =
      ((parse (domain config) g (Buffer.ofString input) { fileName } ()).outcome.mapError
        Failure.reason).toOption.bind (·.bind pick) :=
    congrArg (fun concluded => concluded.1.toOption.bind (·.bind pick)) hparse
  rw [hpicked]
  unfold parseAs
  rw [hg]
  dsimp only
  cases (parse (domain config) g (Buffer.ofString input) { fileName } ()).outcome with
  | error e => rfl
  | ok v => cases hv : v.bind pick <;> simp [Except.mapError, Except.toOption, hv]

/-- The rule of whole expressions. -/
def expressionRule : RuleDecl Value Unit := allRules.head (by decide)

theorem parseExpression_denotes (config : Config) (input fileName : String)
    (hshort : config.maxInputLength = 0 ∨ input.toList.length ≤ config.maxInputLength) :
    (parseExpression config input { fileName }).outcome.toOption =
      picked Value.expression?
        (readWhole (levels config input.toList.length) "Expression" input.toList) := by
  obtain ⟨g, hg, hdeclares⟩ := require_domain config expressionGrammar.qualifiedName
    expressionRule rfl
    (by rw [grammars_domain]; rfl)
  exact parseAs_denotes input fileName hg hdeclares rfl hshort

/-- The rule of whole statements. -/
def compoundRule : RuleDecl Value Unit := statementRules.get ⟨1, by decide⟩

theorem parseStatement_denotes (config : Config) (input fileName : String)
    (hshort : config.maxInputLength = 0 ∨ input.toList.length ≤ config.maxInputLength) :
    (parseStatement config input { fileName }).outcome.toOption =
      picked Value.statement?
        (readWhole (levels config input.toList.length) "CompoundStatement" input.toList) := by
  obtain ⟨g, hg, hdeclares⟩ := require_domain config statementGrammar.qualifiedName
    compoundRule rfl
    (by rw [grammars_domain]; rfl)
  exact parseAs_denotes input fileName hg hdeclares rfl hshort

end AttrGrammar.Cpp

import AttrGrammar.Proofs.CppReading
import AttrGrammar.Proofs.Moves
import AttrGrammar.Proofs.WholeProvision

/-! The slots that the grammars of expressions and of statements use. Every rule but the one for
spacing returns an expression or a statement. An action takes what the calls of its branch returned,
and an operator between the two operands that it joins; so each finds what it takes, and none rejects
a match. One may end the parse, where an integer literal is out of range. -/

namespace AttrGrammar.Cpp
open Text Peg Parse

/-- What a value is, as the rules declare it. -/
def Value.type : Value → String
  | expression _ => "Expression"
  | statement _ => "Statement"
  | operator _ => "Operator"

theorem Value.type_eq_expression {v : Value} :
    v.type = "Expression" ↔ ∃ e, v = expression e := by
  cases v <;> simp [type]

theorem Value.type_eq_statement {v : Value} : v.type = "Statement" ↔ ∃ s, v = statement s := by
  cases v <;> simp [type]

theorem Value.type_eq_operator {v : Value} : v.type = "Operator" ↔ ∃ op, v = operator op := by
  cases v <;> simp [type]

/-! ### What actions do with the slots -/

/-- Takes an expression that a call returned, and returns one. -/
def expressionMoves (instanceName : String) : List Move :=
  [.take (.returned instanceName) "Expression", .fill .value "Expression"]

/-- Takes what two calls returned, and returns a statement. -/
def conditionalMoves : List Move :=
  [.take (.returned "Expression") "Expression", .take (.returned "Statement") "Statement",
   .fill .value "Statement"]

def levelMoves (operand : String) (operators : Nat) : List (String × List Move) :=
  [("first", expressionMoves operand),
   ("combine", [.take (.returned operand) "Expression", .take (.localVar "op") "Operator",
     .take .value "Expression", .fill .value "Expression"])] ++
    (List.range operators).map fun i => (operatorAction i, [.fill (.localVar "op") "Operator"])

def moves : String → List (String × List Move)
  | "Expression" => [("value", expressionMoves "LogicalOr")]
  | "LogicalOr" => levelMoves "LogicalAnd" 1
  | "LogicalAnd" => levelMoves "Equality" 1
  | "Equality" => levelMoves "Relational" 2
  | "Relational" => levelMoves "Additive" 4
  | "Additive" => levelMoves "Multiplicative" 2
  | "Multiplicative" => levelMoves "Unary" 3
  | "Unary" => [("negate", expressionMoves "Unary"), ("not", expressionMoves "Unary"),
      ("primary", expressionMoves "Primary")]
  | "Primary" => [("integer", expressionMoves "Integer"),
      ("identifier", expressionMoves "Identifier"), ("parenthesized", expressionMoves "Expression")]
  | "Integer" | "Identifier" => [("value", [.fill .value "Expression"])]
  | "Statement" =>
    [("value", [.take (.returned "statement") "Statement", .fill .value "Statement"])]
  | "CompoundStatement" =>
    [("open", [.fill .value "Statement"]), ("push", [.take (.returned "Statement") "Statement"])]
  | "IfStatement" =>
    [("then", conditionalMoves), ("else", [.take (.returned "Statement") "Statement"])]
  | "WhileStatement" => [("value", conditionalMoves)]
  | "ReturnStatement" =>
    [("value", [.clear (.returned "Expression"), .fill .value "Statement"])]
  | "EmptyStatement" => [("value", [.fill .value "Statement"])]
  | "ExpressionStatement" =>
    [("value", [.take (.returned "Expression") "Expression", .fill .value "Statement"])]
  | _ => []

/-- Why an action may end a parse, given the text it was run on. -/
def Raises (reason : String) (text : Slice) : Prop :=
  reason = s!"integer literal '{text}' is out of range" ∧ maxInteger < numeral 10 text.toList

/-- The terms on which the rules and actions of both grammars deal with each other. No attribute is
passed down. -/
def terms : Terms Value Unit where
  attributeType _ := ""
  moves := moves
  typeOf := Value.type
  worlds _ := True
  raises := Raises

variable {locals : List String} {facts facts' : List Fact} {ctx : Context}

end AttrGrammar.Cpp

namespace AttrGrammar.Peg.ActionContext.Ready
open Cpp Cpp.Context

variable {locals : List String} {facts : List Fact} {ctx : Context}

/-- Taking an expression that is known to be there. -/
theorem takeExpression (h : ctx.Ready terms locals facts) {instanceName : String}
    (hfact : ⟨.returned instanceName, "Expression"⟩ ∈ facts) :
    ∃ e, takeExpression instanceName ctx = (some e, (ctx.takeInstance instanceName).2) := by
  obtain ⟨v, hv, htype⟩ := h.fits.holds _ hfact
  obtain ⟨e, rfl⟩ := Value.type_eq_expression.1 htype
  exact ⟨e, congrArg (fun v => (v.bind Value.expression?, (ctx.takeInstance instanceName).2)) hv⟩

theorem takeStatement (h : ctx.Ready terms locals facts) {instanceName : String}
    (hfact : ⟨.returned instanceName, "Statement"⟩ ∈ facts) :
    ∃ s, takeStatement instanceName ctx = (some s, (ctx.takeInstance instanceName).2) := by
  obtain ⟨v, hv, htype⟩ := h.fits.holds _ hfact
  obtain ⟨s, rfl⟩ := Value.type_eq_statement.1 htype
  exact ⟨s, congrArg (fun v => (v.bind Value.statement?, (ctx.takeInstance instanceName).2)) hv⟩

/-- A change of the statement being built. -/
theorem modifyStatement (h : ctx.Ready terms locals facts) (change : Statement → Statement) :
    (modifyStatement change ctx).Ready terms locals facts := by
  refine h.withFrame (h.fits.modifyValue fun v => ?_)
  cases v <;> rfl

end AttrGrammar.Peg.ActionContext.Ready

namespace AttrGrammar.Cpp
open Text Peg Parse Context Move

variable {locals : List String}

/-! ### Actions -/

theorem performs_passOn (instanceName : String) :
    terms.Performs locals (passOn instanceName) (expressionMoves instanceName) := by
  refine Terms.performs_make fun ctx facts h hfact => ?_
  obtain ⟨e, he⟩ := h.takeExpression hfact
  rw [passOn, he]
  exact ⟨.expression e, rfl, rfl⟩

theorem performs_applyUnary (op : UnaryOp) :
    terms.Performs locals (applyUnary op) (expressionMoves "Unary") := by
  refine Terms.performs_make fun ctx facts h hfact => ?_
  obtain ⟨e, he⟩ := h.takeExpression hfact
  rw [applyUnary, he]
  exact ⟨.expression (.unary op e), rfl, rfl⟩

theorem performs_rememberOperator (op : BinaryOp) :
    terms.Performs locals (rememberOperator op) [.fill (.localVar "op") "Operator"] := by
  intro ctx facts facts' h hafter
  rw [after_fill] at hafter
  obtain ⟨hopen, ⟨⟩⟩ := hafter
  have hlocal : "op" ∈ locals := of_decide_eq_true hopen
  exact (h.withFrame (h.fits.setLocal hlocal (.operator op))).performed

theorem performs_combine (operand : String) :
    terms.Performs locals (combine operand)
      [.take (.returned operand) "Expression", .take (.localVar "op") "Operator",
        .take .value "Expression", .fill .value "Expression"] := by
  intro ctx facts facts' h hafter
  rw [after_take, after_take, after_take, after_fill] at hafter
  obtain ⟨hright, hop, hleft, -, ⟨⟩⟩ := hafter
  obtain ⟨right, htakeRight⟩ := h.takeExpression hright
  have h' := h.takeInstance operand
  obtain ⟨v, hv, hvtype⟩ := h'.fits.holds _ hop
  obtain ⟨op, rfl⟩ := Value.type_eq_operator.1 hvtype
  have hfits := h'.fits.takeLocal "op"
  obtain ⟨w, hw, hwtype⟩ := hfits.holds _ hleft
  obtain ⟨left, rfl⟩ := Value.type_eq_expression.1 hwtype
  have hoperator : ((ctx.takeInstance operand).2.frame.takeLocal "op").1 = some (.operator op) := hv
  have hvalue : ((ctx.takeInstance operand).2.frame.takeLocal "op").2.takeValue.1 =
      some (.expression left) := hw
  have hcombine : combine operand ctx = setExpression (.binary op left right)
      { (ctx.takeInstance operand).2 with
        frame := ((ctx.takeInstance operand).2.frame.takeLocal "op").2.takeValue.2 } := by
    rw [combine, htakeRight]
    dsimp only
    rw [hoperator, hvalue]
    rfl
  rw [hcombine]
  exact ((h'.withFrame hfits.takeValue).setValue (.expression (.binary op left right))).performed

theorem performs_readInteger :
    terms.Performs locals readInteger [.fill .value "Expression"] := by
  intro ctx facts facts' h hafter
  rw [after_fill] at hafter
  obtain ⟨-, ⟨⟩⟩ := hafter
  unfold readInteger
  dsimp only
  split
  · exact (h.setValue (.expression (.integer _))).performed
  · next hlarge => exact ⟨h.pass, .inl ⟨_, rfl, rfl, Nat.not_le.1 hlarge⟩⟩

theorem performs_readIdentifier :
    terms.Performs locals readIdentifier [.fill .value "Expression"] :=
  Terms.performs_set fun ctx => ⟨.expression (.identifier (toString ctx.text)), rfl, rfl⟩

theorem performs_passStatement : terms.Performs locals passStatement
    [.take (.returned "statement") "Statement", .fill .value "Statement"] := by
  refine Terms.performs_make fun ctx facts h hfact => ?_
  obtain ⟨s, hs⟩ := h.takeStatement hfact
  rw [passStatement, hs]
  exact ⟨.statement s, rfl, rfl⟩

theorem performs_setStatement (s : Statement) :
    terms.Performs locals (setStatement s) [.fill .value "Statement"] :=
  Terms.performs_set fun _ => ⟨.statement s, rfl, rfl⟩

theorem performs_addStatement :
    terms.Performs locals addStatement [.take (.returned "Statement") "Statement"] := by
  intro ctx facts facts' h hafter
  rw [after_take] at hafter
  obtain ⟨hfact, ⟨⟩⟩ := hafter
  obtain ⟨s, hs⟩ := h.takeStatement hfact
  rw [addStatement, hs]
  exact ((h.takeInstance "Statement").modifyStatement (append s)).performed

theorem performs_addElse :
    terms.Performs locals addElse [.take (.returned "Statement") "Statement"] := by
  intro ctx facts facts' h hafter
  rw [after_take] at hafter
  obtain ⟨hfact, ⟨⟩⟩ := hafter
  obtain ⟨s, hs⟩ := h.takeStatement hfact
  rw [addElse, hs]
  exact ((h.takeInstance "Statement").modifyStatement (withElse s)).performed

theorem performs_setConditional (make : Expression → Statement → Statement) :
    terms.Performs locals (setConditional make) conditionalMoves := by
  intro ctx facts facts' h hafter
  rw [conditionalMoves, after_take, after_take, after_fill] at hafter
  obtain ⟨hcondition, hbody, -, ⟨⟩⟩ := hafter
  obtain ⟨e, he⟩ := h.takeExpression hcondition
  obtain ⟨s, hs⟩ := (h.takeInstance "Expression").takeStatement hbody
  rw [setConditional, he]
  dsimp only
  rw [hs]
  exact (((h.takeInstance "Expression").takeInstance "Statement").setValue
    (.statement (make e s))).performed

theorem performs_setReturn : terms.Performs locals setReturn
    [.clear (.returned "Expression"), .fill .value "Statement"] := by
  intro ctx facts facts' h hafter
  rw [after, after_fill] at hafter
  obtain ⟨-, ⟨⟩⟩ := hafter
  exact ((h.takeInstance "Expression").setValue (.statement (.ret _))).performed

theorem performs_setExpressionStatement : terms.Performs locals setExpressionStatement
    [.take (.returned "Expression") "Expression", .fill .value "Statement"] := by
  refine Terms.performs_make fun ctx facts h hfact => ?_
  obtain ⟨e, he⟩ := h.takeExpression hfact
  rw [setExpressionStatement, he]
  exact ⟨.statement (.expression e), rfl, rfl⟩

/-! ### Rules -/

/-- The actions of a level of binary operators. -/
theorem performs_binaryLevel (name info operand : String)
    (operators : List (String × BinaryOp)) :
    List.Forall₂ (fun a entry => a.name = entry.1 ∧ terms.Performs ["op"] a.run entry.2)
      (binaryLevel name info operand operators).actions (levelMoves operand operators.length) := by
  have hoperators : List.Forall₂
      (fun (a : Action Value Unit) entry =>
        a.name = entry.1 ∧ terms.Performs ["op"] a.run entry.2)
      (operators.mapIdx fun i e => ⟨operatorAction i, rememberOperator e.2⟩)
      ((List.range operators.length).map fun i =>
        (operatorAction i, [.fill (.localVar "op") "Operator"])) := by
    refine List.forall₂_iff_get.2 ⟨by simp, fun i hi hi' => ?_⟩
    simp only [List.get_eq_getElem, List.getElem_mapIdx, List.getElem_map, List.getElem_range]
    exact ⟨trivial, performs_rememberOperator _⟩
  exact .cons ⟨rfl, performs_passOn operand⟩ (.cons ⟨rfl, performs_combine operand⟩ hoperators)

theorem performs_allRules : ∀ decl ∈ allRules, ∀ entry ∈ terms.moves decl.name,
    terms.Performs decl.locals (decl.perform entry.1) entry.2 := by
  have hnodup : ∀ decl ∈ allRules, (decl.actions.map Action.name).Nodup := by decide
  refine fun decl hdecl => Terms.performs_forall₂ (hnodup decl hdecl) ?_
  revert decl
  simp only [allRules, expressionRules, statementRules, List.forall_mem_append,
    List.forall_mem_cons, List.not_mem_nil, false_implies, implies_true, and_true]
  exact ⟨⟨.cons ⟨rfl, performs_passOn _⟩ .nil, performs_binaryLevel _ _ _ [_],
      performs_binaryLevel _ _ _ [_], performs_binaryLevel _ _ _ [_, _],
      performs_binaryLevel _ _ _ [_, _, _, _], performs_binaryLevel _ _ _ [_, _],
      performs_binaryLevel _ _ _ [_, _, _],
      .cons ⟨rfl, performs_applyUnary _⟩
        (.cons ⟨rfl, performs_applyUnary _⟩ (.cons ⟨rfl, performs_passOn _⟩ .nil)),
      .cons ⟨rfl, performs_passOn _⟩
        (.cons ⟨rfl, performs_passOn _⟩ (.cons ⟨rfl, performs_passOn _⟩ .nil)),
      .cons ⟨rfl, performs_readInteger⟩ .nil, .cons ⟨rfl, performs_readIdentifier⟩ .nil, .nil⟩,
    .cons ⟨rfl, performs_passStatement⟩ .nil,
    .cons ⟨rfl, performs_setStatement _⟩ (.cons ⟨rfl, performs_addStatement⟩ .nil),
    .cons ⟨rfl, performs_setConditional _⟩ (.cons ⟨rfl, performs_addElse⟩ .nil),
    .cons ⟨rfl, performs_setConditional _⟩ .nil, .cons ⟨rfl, performs_setReturn⟩ .nil,
    .cons ⟨rfl, performs_setStatement _⟩ .nil, .cons ⟨rfl, performs_setExpressionStatement⟩ .nil⟩

/-- No attribute is passed down. -/
theorem handsOn_allRules : ∀ decl ∈ allRules, decl.definition.Calls (HandsOn allRules) := by
  have hplain : ∀ decl ∈ allRules, decl.definition.Calls fun _ args => args = [] := by
    simp [allRules, expressionRules, statementRules, Parser.Calls, binaryLevel,
      logicalOrOperators, logicalAndOperators, equalityOperators, relationalOperators,
      additiveOperators, multiplicativeOperators, Parser.call, Parser.callAs, Parser.seq,
      Parser.choice, Parser.combine, required, requiredChar, Parser.word, condition,
      identifierWord, comment]
  have hinherited : ∀ decl ∈ allRules, decl.inherited = [] := by decide
  refine fun decl hdecl => (hplain decl hdecl).imp fun rule args hargs target htarget => ?_
  rw [hargs, hinherited target (List.mem_of_find?_eq_some htarget), List.map_nil]

theorem kept_allRules : terms.Kept allRules where
  performs := performs_allRules
  handsOn := handsOn_allRules
  passes := by decide

theorem plainSkip_allRules : PlainSkip allRules (some "Spacing") := by
  rintro _ ⟨⟩
  exact ⟨expressionRules.get ⟨11, by decide⟩, rfl, rfl⟩

end AttrGrammar.Cpp

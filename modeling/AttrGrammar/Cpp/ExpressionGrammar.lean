import AttrGrammar.Cpp.Syntax
import AttrGrammar.Peg.Domain
import AttrGrammar.Text.Numeral

/-! The grammar of expressions, from the loosest binary operators down to operands. It also has the
rule for what may stand between tokens: blanks and both kinds of comments. -/

namespace AttrGrammar.Cpp
open Text Peg

/-- What actions of the grammars work on. They keep nothing outside their frames. -/
abbrev Context := ActionContext Value Unit

/-- Words that are no identifiers. -/
def keywords : List String := ["if", "else", "while", "return"]

def maxInteger : Nat := 9223372036854775807

namespace Context

def takeExpression (instanceName : String) (ctx : Context) : Option Expression × Context :=
  let (v, ctx) := ctx.takeInstance instanceName
  (v.bind Value.expression?, ctx)

def setExpression (e : Expression) (ctx : Context) : Context := ctx.setValue (.expression e)

/-- Returns what a call returned. -/
def passOn (instanceName : String) (ctx : Context) : Context :=
  match takeExpression instanceName ctx with
  | (some e, ctx) => setExpression e ctx
  | (none, ctx) => ctx.reject

/-- Applies an operator to the operand behind it. -/
def applyUnary (op : UnaryOp) (ctx : Context) : Context :=
  match takeExpression "Unary" ctx with
  | (some e, ctx) => setExpression (.unary op e) ctx
  | (none, ctx) => ctx.reject

/-- Remembers the operator that was read. -/
def rememberOperator (op : BinaryOp) (ctx : Context) : Context :=
  { ctx with frame := (ctx.frame.setLocal "op" (.operator op)).2 }

/-- Joins what was read so far and the operand behind the operator. -/
def combine (operand : String) (ctx : Context) : Context :=
  let (right, ctx) := takeExpression operand ctx
  let (op, frame) := ctx.frame.takeLocal "op"
  let (left, frame) := frame.takeValue
  let ctx := { ctx with frame }
  match op.bind Value.operator?, right, left.bind Value.expression? with
  | some op, some right, some left => setExpression (.binary op left right) ctx
  | _, _, _ => ctx.reject

def readInteger (ctx : Context) : Context :=
  let value := numeral 10 ctx.text.toList
  if value ≤ maxInteger then setExpression (.integer value) ctx
  else ctx.raise s!"integer literal '{ctx.text}' is out of range"

def readIdentifier (ctx : Context) : Context := setExpression (.identifier (toString ctx.text)) ctx

end Context

open Context

/-- Calls a rule, or ends the parse where it does not match. -/
def required (rule : String) : Definition Value := .expectation (.call rule)

/-- Reads a character, or ends the parse where another one stands. -/
def requiredChar (c : Char) : Definition Value := .expectation (.char c)

/-- The name of the action for the operator at a place of a level. -/
def operatorAction (index : Nat) : String := s!"op{index}"

/-- One level of binary operators, which group from the left: operands of the next level with
operators of this level, which come with their texts, between them. -/
def binaryLevel (name info operand : String) (operators : List (String × BinaryOp)) :
    RuleDecl Value Unit where
  name := name
  info := some info
  valueType := some "Expression"
  locals := ["op"]
  definition :=
    .sequence (.action "first" (.call operand)) <| .star <| .action "combine" <|
      .sequence
        (.choice (operators.mapIdx fun i e => .action (operatorAction i) (.literal e.1)))
        (required operand)
  actions :=
    [⟨"first", passOn operand⟩, ⟨"combine", combine operand⟩] ++
      operators.mapIdx fun i e => ⟨operatorAction i, rememberOperator e.2⟩

def logicalOrOperators : List (String × BinaryOp) := [("||", .logicalOr)]

def logicalAndOperators : List (String × BinaryOp) := [("&&", .logicalAnd)]

def equalityOperators : List (String × BinaryOp) := [("==", .equal), ("!=", .notEqual)]

/-- Of these the first that stands in the text counts, so the longer ones come first. -/
def relationalOperators : List (String × BinaryOp) :=
  [("<=", .lessEqual), (">=", .greaterEqual), ("<", .less), (">", .greater)]

def additiveOperators : List (String × BinaryOp) := [("+", .add), ("-", .subtract)]

def multiplicativeOperators : List (String × BinaryOp) :=
  [("*", .multiply), ("/", .divide), ("%", .remainder)]

/-- The texts under which the grammar knows the operators. -/
def operatorTexts : List (String × BinaryOp) :=
  logicalOrOperators ++ logicalAndOperators ++ equalityOperators ++ relationalOperators ++
    additiveOperators ++ multiplicativeOperators

/-- Every operator is read where it stands as it is written. -/
theorem mem_operatorTexts {text : String} {op : BinaryOp} :
    (text, op) ∈ operatorTexts ↔ text = op.symbol := by
  have hsymbol : ∀ e ∈ operatorTexts, e.1 = e.2.symbol := by decide
  refine ⟨hsymbol (text, op), ?_⟩
  rintro rfl
  cases op <;> decide

/-- A word of identifier characters, keywords included. -/
def identifierWord : Definition Value :=
  .token (.sequence (.oneOf .idStart) (.star (.oneOf .idCont)))

/-- A comment up to the end of its line, or one between its two marks. -/
def comment : Definition Value :=
  .alternative
    (.sequence (.literal "//") (.star (.difference .anyChar (.char '\n'))))
    (.seq [.literal "/*", .star (.difference .anyChar (.literal "*/")),
      .expectation (.literal "*/")])

def expressionRules : List (RuleDecl Value Unit) :=
  [{ name := "Expression", info := some "expression", valueType := some "Expression"
     definition := .action "value" (.call "LogicalOr")
     actions := [⟨"value", passOn "LogicalOr"⟩] },
   binaryLevel "LogicalOr" "logical or" "LogicalAnd" logicalOrOperators,
   binaryLevel "LogicalAnd" "logical and" "Equality" logicalAndOperators,
   binaryLevel "Equality" "equality" "Relational" equalityOperators,
   binaryLevel "Relational" "relational" "Additive" relationalOperators,
   binaryLevel "Additive" "additive" "Multiplicative" additiveOperators,
   binaryLevel "Multiplicative" "multiplicative" "Unary" multiplicativeOperators,
   { name := "Unary", info := some "unary expression", valueType := some "Expression"
     definition := .choice
       [.action "negate" (.sequence (.char '-') (required "Unary")),
        .action "not" (.sequence (.char '!') (required "Unary")),
        .action "primary" (.call "Primary")]
     actions := [⟨"negate", applyUnary .negate⟩, ⟨"not", applyUnary .not⟩,
       ⟨"primary", passOn "Primary"⟩] },
   { name := "Primary", info := some "primary expression", valueType := some "Expression"
     definition := .choice
       [.action "integer" (.call "Integer"),
        .action "identifier" (.call "Identifier"),
        .action "parenthesized" (.seq [.char '(', required "Expression", requiredChar ')'])]
     actions := [⟨"integer", passOn "Integer"⟩, ⟨"identifier", passOn "Identifier"⟩,
       ⟨"parenthesized", passOn "Expression"⟩] },
   { name := "Integer", info := some "integer literal", valueType := some "Expression"
     definition := .action "value" (.token (.plus (.oneOf .digit)))
     actions := [⟨"value", readInteger⟩] },
   { name := "Identifier", info := some "identifier", valueType := some "Expression"
     definition := .action "value"
       (.difference identifierWord (.keywordList identifierWord keywords))
     actions := [⟨"value", readIdentifier⟩] },
   { name := "Spacing", info := some "white space"
     definition := .plus (.alternative (.oneOf .space) comment) }]

def expressionGrammar : GrammarDecl Value Unit :=
  { name := "ExpressionGrammar", nameSpace := some "cpp", rules := expressionRules
    start := some "Expression", skip := some "Spacing" }

end AttrGrammar.Cpp

import AttrGrammar.Cpp.ExpressionGrammar

/-! The grammar of statements, on top of the grammar of expressions. A parse starts with one
compound statement. -/

namespace AttrGrammar.Cpp
open Text Peg

namespace Context

def takeStatement (instanceName : String) (ctx : Context) : Option Statement × Context :=
  let (v, ctx) := ctx.takeInstance instanceName
  (v.bind Value.statement?, ctx)

def setStatement (s : Statement) (ctx : Context) : Context := ctx.setValue (.statement s)

def modifyStatement (change : Statement → Statement) (ctx : Context) : Context :=
  { ctx with frame := ctx.frame.modifyValue fun
    | .statement s => .statement (change s)
    | v => v }

/-- Returns the statement of whichever rule matched. -/
def passStatement (ctx : Context) : Context :=
  match takeStatement "statement" ctx with
  | (some s, ctx) => setStatement s ctx
  | (none, ctx) => ctx.reject

/-- A compound statement with one more statement. -/
def append (added : Statement) : Statement → Statement
  | .compound body => .compound (body ++ [added])
  | other => other

/-- Adds a statement to the compound statement being read. -/
def addStatement (ctx : Context) : Context :=
  match takeStatement "Statement" ctx with
  | (some s, ctx) => modifyStatement (append s) ctx
  | (none, ctx) => ctx.reject

/-- Returns a statement made of a condition and a statement behind it. -/
def setConditional (make : Expression → Statement → Statement) (ctx : Context) : Context :=
  let (condition, ctx) := takeExpression "Expression" ctx
  let (body, ctx) := takeStatement "Statement" ctx
  match condition, body with
  | some condition, some body => setStatement (make condition body) ctx
  | _, _ => ctx.reject

/-- An if statement with an else branch. -/
def withElse (elseBranch : Statement) : Statement → Statement
  | .ifThen condition thenBranch | .ifElse condition thenBranch _ =>
    .ifElse condition thenBranch elseBranch
  | other => other

/-- Adds the branch behind `else`. -/
def addElse (ctx : Context) : Context :=
  match takeStatement "Statement" ctx with
  | (some s, ctx) => modifyStatement (withElse s) ctx
  | (none, ctx) => ctx.reject

/-- Returns a return statement with the value that was read, if any. -/
def setReturn (ctx : Context) : Context :=
  let (value, ctx) := takeExpression "Expression" ctx
  setStatement (.ret value) ctx

def setExpressionStatement (ctx : Context) : Context :=
  match takeExpression "Expression" ctx with
  | (some e, ctx) => setStatement (.expression e) ctx
  | (none, ctx) => ctx.reject

end Context

open Context

/-- A condition in parentheses, with every part of it required. -/
def condition : Definition Value :=
  .seq [requiredChar '(', required "Expression", requiredChar ')']

def statementRules : List (RuleDecl Value Unit) :=
  [{ name := "Statement", info := some "statement", valueType := some "Statement"
     definition := .action "value" <| .choice <|
       ["CompoundStatement", "IfStatement", "WhileStatement", "ReturnStatement", "EmptyStatement",
        "ExpressionStatement"].map (.callAs · "statement")
     actions := [⟨"value", passStatement⟩] },
   { name := "CompoundStatement", info := some "compound statement", valueType := some "Statement"
     definition := .seq
       [.action "open" (.char '\x7b'), .star (.action "push" (.call "Statement")),
        requiredChar '\x7d']
     actions := [⟨"open", setStatement (.compound [])⟩, ⟨"push", addStatement⟩] },
   { name := "IfStatement", info := some "if statement", valueType := some "Statement"
     definition := .sequence
       (.action "then" (.seq [.word "if", condition, required "Statement"]))
       (.optional (.action "else" (.sequence (.word "else") (required "Statement"))))
     actions := [⟨"then", setConditional .ifThen⟩, ⟨"else", addElse⟩] },
   { name := "WhileStatement", info := some "while statement", valueType := some "Statement"
     definition := .action "value" (.seq [.word "while", condition, required "Statement"])
     actions := [⟨"value", setConditional .loop⟩] },
   { name := "ReturnStatement", info := some "return statement", valueType := some "Statement"
     definition := .action "value"
       (.seq [.word "return", .optional (.call "Expression"), requiredChar ';'])
     actions := [⟨"value", setReturn⟩] },
   { name := "EmptyStatement", valueType := some "Statement"
     definition := .action "value" (.char ';')
     actions := [⟨"value", setStatement .empty⟩] },
   { name := "ExpressionStatement", info := some "expression statement"
     valueType := some "Statement"
     definition := .action "value" (.sequence (.call "Expression") (requiredChar ';'))
     actions := [⟨"value", setExpressionStatement⟩] }]

def statementGrammar : GrammarDecl Value Unit :=
  { name := "StatementGrammar", nameSpace := some "cpp"
    references := [expressionGrammar.qualifiedName]
    links := ["Expression", "Spacing"].map fun rule =>
      ⟨rule, expressionGrammar.qualifiedName ++ "." ++ rule⟩
    rules := statementRules, start := some "CompoundStatement", skip := some "Spacing" }

end AttrGrammar.Cpp

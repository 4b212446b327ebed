import AttrGrammar.Cpp.StatementGrammar
import AttrGrammar.Peg.Link
import AttrGrammar.Parse.Run

/-! Parsing expressions and statements. -/

namespace AttrGrammar.Cpp
open Text Peg Parse

def linked : Except LinkError (Domain Value Unit) := do
  let (_, _, d) ← Domain.empty.add expressionGrammar
  let (_, _, d) ← d.add statementGrammar
  return d

/-- The domain of the two grammars with the given limits. -/
def domain (config : Config) : Domain Value Unit :=
  match linked with
  | .ok d => d.withConfig config
  | .error _ => Domain.empty.withConfig config

/-- Parses with one of the two grammars and looks for a result of one kind. -/
def parseAs (pick : Value → Option α) (grammar : GrammarDecl Value Unit) (start : String)
    (config : Config) (input : String) (options : Options Value) : Report α Unit :=
  match require (domain config) grammar.qualifiedName with
  | .error e => ⟨.error (.error e), options.log, [], ()⟩
  | .ok g =>
    let report := parse (domain config) g (Buffer.ofString input) options ()
    let outcome := match report.outcome with
      | .error e => .error e
      | .ok v =>
        match v.bind pick with
        | some result => .ok result
        | none => .error (.error (.missingRuleValue (grammar.qualifiedName ++ "." ++ start)))
    { report with outcome }

def parseStatement (config : Config) (input : String) (options : Options Value) :
    Report Statement Unit :=
  parseAs Value.statement? statementGrammar "CompoundStatement" config input options

def parseExpression (config : Config) (input : String) (options : Options Value) :
    Report Expression Unit :=
  parseAs Value.expression? expressionGrammar "Expression" config input options

end AttrGrammar.Cpp

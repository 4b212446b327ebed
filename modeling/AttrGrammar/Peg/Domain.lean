import AttrGrammar.Peg.Config
import AttrGrammar.Peg.Entries
import AttrGrammar.Peg.Rule

/-! Domains: linked grammars over one common rule table, with a map from their names to their
numbers. -/

namespace AttrGrammar.Peg
open Text

/-- Makes a rule of a referenced grammar known under a local name. -/
structure RuleLink where
  localName : String
  target : String
  deriving DecidableEq

/-- The name of a grammar inside its namespace, if it has one. -/
def qualify (nameSpace : Option String) (name : String) : String :=
  match nameSpace with
  | some space => if space.isEmpty then name else space ++ "." ++ name
  | none => name

/-- A grammar as it is declared. References name other grammars of the domain; a link's target is
the name of such a grammar and of a rule in it, with a dot between them. -/
structure GrammarDecl (V W : Type) where
  name : String
  nameSpace : Option String := none
  references : List String := []
  links : List RuleLink := []
  rules : List (RuleDecl V W) := []
  start : Option String := none
  skip : Option String := none

/-- The name by which other grammars refer to a grammar. -/
def GrammarDecl.qualifiedName {V W : Type} (g : GrammarDecl V W) : String :=
  qualify g.nameSpace g.name

/-- A grammar of a domain. Its own rules and those it links to are entries of the rule table. -/
structure Grammar where
  id : GrammarId
  name : String
  nameSpace : Option String
  qualifiedName : String
  rules : List (String × RuleId)
  links : List RuleLink
  linkedRules : List (String × RuleId)
  references : List GrammarId
  startRule : Option RuleId
  skipRule : Option RuleId

/-- The rule that a grammar knows by a name: its own one, else the one it links to. -/
def Grammar.rule? (g : Grammar) (name : String) : Option RuleId :=
  (g.rules.lookup name).or (g.linkedRules.lookup name)

instance : Describe RuleLink where
  describe l := recordText "RuleLink"
    [("local_name", describe l.localName), ("target", describe l.target)]

def describeRuleMap (entries : List (String × RuleId)) : String :=
  mapText (entries.map fun e => (describe e.1, describe e.2))

instance : Describe Grammar where
  describe g := variantText "GrammarRef" <| recordText "Grammar"
    [("id", describe g.id), ("name", describe g.name), ("namespace", describe g.nameSpace),
     ("qualified_name", describe g.qualifiedName), ("rules", describeRuleMap g.rules),
     ("links", describe g.links), ("linked_rules", describeRuleMap g.linkedRules),
     ("references", describe g.references), ("start_rule", describe g.startRule),
     ("skip_rule", describe g.skipRule)]

/-- Linked grammars, the numbers under which their names lead to them, the rules of all of them in
one table, and the limits for parsing with them. -/
structure Domain (V W : Type) where
  grammars : Array Grammar
  byName : List (String × GrammarId)
  rules : Array (Rule V W)
  config : Config

namespace Domain

variable {V W : Type}

def empty : Domain V W := ⟨#[], [], #[], {}⟩

def grammarAt? (d : Domain V W) (id : GrammarId) : Option Grammar := d.grammars[id.index]?

def grammar? (d : Domain V W) (name : String) : Option Grammar :=
  (d.byName.lookup name).bind d.grammarAt?

def rule? (d : Domain V W) (id : RuleId) : Option (Rule V W) := d.rules[id.index]?

def withConfig (d : Domain V W) (config : Config) : Domain V W := { d with config }

instance : Describe (Domain V W) where
  describe d := recordText "ParsingDomain"
    [("grammars", describe (d.byName.map Prod.fst)),
     ("rules", describe d.rules.size), ("config", describe d.config)]

/-- A grammar as it could be declared, one line for each reference, link and rule. -/
def render (d : Domain V W) (g : Grammar) : String :=
  let line (text : String) : String := "    " ++ text ++ "\n"
  let ruleName (id : Option RuleId) : Option String := (id.bind d.rule?).map (·.name)
  let optional (word : String) (name : Option String) : List String :=
    name.toList.map fun n => line (word ++ " " ++ n ++ ";")
  "grammar " ++ g.qualifiedName ++ "\n\x7b\n" ++ String.join
    (g.references.filterMap (fun id => (d.grammarAt? id).map fun r =>
        line ("reference " ++ r.qualifiedName ++ ";")) ++
      g.links.map (fun l => line ("using " ++ l.localName ++ " = " ++ l.target ++ ";")) ++
      optional "skip" (ruleName g.skipRule) ++
      optional "start" (ruleName g.startRule) ++
      g.rules.filterMap fun e => (d.rule? e.2).map fun rule => line rule.render) ++ "\x7d"

end Domain

end AttrGrammar.Peg

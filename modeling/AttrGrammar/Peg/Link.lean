import AttrGrammar.Peg.Domain
import AttrGrammar.Peg.LinkError
import AttrGrammar.Parse.Notice

/-! Linking: a declared grammar joins a domain once every name in it is resolved. Its rules go to
the end of the rule table in the order of their declaration. A name resolves to a rule of the
grammar itself, else to a link, else, as a path, to a rule of a referenced grammar. The first fault
found in the order of the checks is reported; nothing has been written to the domain by then. -/

namespace AttrGrammar.Peg

variable {V W : Type}

/-- What a name resolves to: a rule, and how many arguments it takes. -/
structure Target where
  id : RuleId
  arity : Nat

/-- What the names in the tree of one rule mean. -/
structure Scope (V W : Type) where
  grammar : String
  rule : String
  actions : List (Action V W)
  resolve : String → Option Target

namespace Scope

/-- The rule that a name means, provided it takes `found` arguments. -/
def ruleRef (scope : Scope V W) (name : String) (found : Nat) : Except LinkError RuleRef :=
  match scope.resolve name with
  | none => .error (.ruleNotFound scope.grammar scope.rule name)
  | some target =>
    if target.arity = found then .ok ⟨name, target.id⟩
    else .error (.argumentCountMismatch scope.grammar scope.rule name target.arity found)

def action (scope : Scope V W) (name : String) : Except LinkError (Action V W) :=
  match scope.actions.find? (·.name == name) with
  | some action => .ok action
  | none => .error (.actionNotFound scope.grammar scope.rule name)

end Scope

/-- Resolves the names of a tree, each node before its parts and the parts from left to right. -/
def Parser.link (scope : Scope V W) : Definition V → Except LinkError (LinkedParser V W)
  | empty => .ok empty
  | anyChar => .ok anyChar
  | atEnd => .ok atEnd
  | char c => .ok (char c)
  | literal text => .ok (literal text)
  | oneOf cls => .ok (oneOf cls)
  | set s => .ok (set s)
  | range first last => .ok (range first last)
  | keyword text none => .ok (keyword text none)
  | keyword text (some name) => return keyword text (some (← scope.ruleRef name 0))
  | keywordList selector words => return keywordList (← selector.link scope) words
  | sequence l r => return sequence (← l.link scope) (← r.link scope)
  | alternative l r => return alternative (← l.link scope) (← r.link scope)
  | optional body => return optional (← body.link scope)
  | star body => return star (← body.link scope)
  | plus body => return plus (← body.link scope)
  | difference l r => return difference (← l.link scope) (← r.link scope)
  | exclusiveOr l r => return exclusiveOr (← l.link scope) (← r.link scope)
  | intersection l r => return intersection (← l.link scope) (← r.link scope)
  | list element separator => return list (← element.link scope) (← separator.link scope)
  | grouping body => return grouping (← body.link scope)
  | token body => return token (← body.link scope)
  | expectation body => return expectation (← body.link scope)
  | action name body => return action (← scope.action name) (← body.link scope)
  | nonterminal name instanceName args =>
    return nonterminal (← scope.ruleRef name args.length) instanceName args

/-- The first name that occurred before. -/
def firstRepeated? (seen : List String) : List String → Option String
  | [] => none
  | name :: rest => if name ∈ seen then some name else firstRepeated? (name :: seen) rest

/-- Splits a path at its last dot into a grammar and a rule. -/
def splitPath (path : String) : Option (String × String) :=
  let reversed := path.toList.reverse
  match reversed.dropWhile (· != '.') with
  | [] => none
  | _ :: grammar =>
    some (String.ofList grammar.reverse, String.ofList (reversed.takeWhile (· != '.')).reverse)

namespace Domain

def linkReferences (d : Domain V W) (g : GrammarDecl V W) : Except LinkError (List GrammarId) :=
  g.references.mapM fun reference =>
    match d.byName.lookup reference with
    | some id => .ok id
    | none => .error (.unknownGrammar g.qualifiedName reference)

/-- The rules of a declaration with the places they will have in the rule table. -/
def ownRules (d : Domain V W) (g : GrammarDecl V W) : List (String × Target) :=
  g.rules.mapIdx fun i rule => (rule.name, ⟨.ofNat (d.rules.size + i), rule.inherited.length⟩)

/-- The rule that a link makes known, provided its grammar is referenced. -/
def resolveLink (d : Domain V W) (grammar : String) (references : List GrammarId)
    (link : RuleLink) : Except LinkError RuleId :=
  match splitPath link.target with
  | none => .error (.invalidRulePath grammar link.target)
  | some (grammarName, ruleName) =>
    match d.byName.lookup grammarName with
    | none => .error (.unknownGrammar grammar grammarName)
    | some target =>
      if target ∈ references then
        match (d.grammarAt? target).bind (·.rule? ruleName) with
        | some id => .ok id
        | none => .error (.ruleNotFound grammar link.localName link.target)
      else .error (.unreferencedGrammar grammar link.target)

/-- The rules that a declaration links to; the last link under a local name counts. -/
def linkRules (d : Domain V W) (grammar : String) (references : List GrammarId)
    (links : List RuleLink) : Except LinkError (List (String × RuleId)) :=
  links.foldlM (fun known link => do
    let id ← d.resolveLink grammar references link
    return Entries.insert link.localName id known) []

/-- The rule that a path leads to, provided its grammar is referenced. -/
def followPath (d : Domain V W) (references : List GrammarId) (path : String) : Option RuleId := do
  let (grammarName, ruleName) ← splitPath path
  let target ← d.byName.lookup grammarName
  if target ∈ references then (d.grammarAt? target).bind (·.rule? ruleName) else none

/-- What a name means in a grammar: a rule of its own, a link, or a path. -/
def resolve (d : Domain V W) (own : List (String × Target)) (linked : List (String × RuleId))
    (references : List GrammarId) (name : String) : Option Target :=
  (own.lookup name).or do
    let id ← (linked.lookup name).or (d.followPath references name)
    let rule ← d.rule? id
    return ⟨id, rule.inherited.length⟩

def linkStart (resolve : String → Option Target) (g : GrammarDecl V W) :
    Except LinkError (Option RuleId) :=
  match g.start with
  | none => .ok none
  | some name =>
    match resolve name with
    | some target => .ok (some target.id)
    | none => .error (.missingStartRule g.qualifiedName name)

/-- The skip rule, if one is named; it inherits nothing. -/
def linkSkip (resolve : String → Option Target) (g : GrammarDecl V W) :
    Except LinkError (Option RuleId) :=
  match g.skip with
  | none => .ok none
  | some name =>
    match resolve name with
    | none => .error (.missingSkipRule g.qualifiedName name)
    | some target =>
      if target.arity > 0 then .error (.skipRuleWithAttributes g.qualifiedName name target.arity)
      else .ok (some target.id)

def linkRule (resolve : String → Option Target) (grammar : String) (id : RuleId)
    (rule : RuleDecl V W) : Except LinkError (Rule V W) := do
  let definition ← rule.definition.link ⟨grammar, rule.name, rule.actions, resolve⟩
  return { id, definition, name := rule.name, fullName := grammar ++ "." ++ rule.name,
           info := rule.info.getD rule.name, valueType := rule.valueType,
           inherited := rule.inherited, locals := rule.locals, actions := rule.actions }

/-- A grammar and its rules, ready to join the domain. -/
def link (d : Domain V W) (g : GrammarDecl V W) : Except LinkError (Grammar × List (Rule V W)) := do
  let name := g.qualifiedName
  if (d.byName.lookup name).isSome then
    throw (.duplicateGrammar name)
  let references ← d.linkReferences g
  if let some repeated := firstRepeated? [] (g.rules.map (·.name)) then
    throw (.duplicateRule name repeated)
  let own := d.ownRules g
  let linkedRules ← d.linkRules name references g.links
  let resolve := d.resolve own linkedRules references
  let startRule ← linkStart resolve g
  let skipRule ← linkSkip resolve g
  let rules ← (own.zip g.rules).mapM fun (entry, rule) => linkRule resolve name entry.2.id rule
  let grammar : Grammar :=
    { id := .ofNat d.grammars.size, name := g.name, nameSpace := g.nameSpace, qualifiedName := name,
      rules := own.map fun entry => (entry.1, entry.2.id), links := g.links, linkedRules,
      references, startRule, skipRule }
  return (grammar, rules)

/-- Adds a grammar to the domain it is run on: its rules, its name and then the grammar itself. A
notice tells what was linked. -/
def addGrammar (g : GrammarDecl V W) :
    EStateM LinkError (Domain V W) (GrammarId × Parse.Notice) := do
  let (grammar, rules) ← MonadExcept.ofExcept ((← get).link g)
  modify fun d => { d with rules := d.rules ++ rules }
  modify fun d => { d with byName := Entries.insert grammar.qualifiedName grammar.id d.byName }
  modify fun d => { d with grammars := d.grammars.push grammar }
  return (grammar.id, .linked grammar.qualifiedName rules.length grammar.linkedRules.length)

/-- The domain with a further grammar, or why there is none. -/
def add (d : Domain V W) (g : GrammarDecl V W) :
    Except LinkError (GrammarId × Parse.Notice × Domain V W) :=
  match (addGrammar g).run d with
  | .ok (id, notice) d' => .ok (id, notice, d')
  | .error e _ => .error e

end Domain

end AttrGrammar.Peg

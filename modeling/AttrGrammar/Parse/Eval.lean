import AttrGrammar.Parse.Activation

/-! The meaning of parser trees and rules. A tree is evaluated by recursion over its parts, with the
meaning of rule calls as a parameter; a rule is an activation that evaluates its tree. Since rules
call each other without end in general, the meaning of a rule takes fuel, one unit for each level of
nesting. -/

namespace AttrGrammar.Parse
open Text Scan Peg

variable {V W : Type}

/-- The step that a tree means, given what calling a rule means. -/
def evalParser (setting : Setting V W) (call : RuleId → Step V W Match) :
    LinkedParser V W → Step V W Match
  | .empty => return .hit 0
  | .anyChar => .scanOne setting fun _ => true
  | .atEnd => .atEnd setting
  | .char c => .scanOne setting (· == c)
  | .literal text => .literal setting text.toList
  | .oneOf cls => .scanOne setting cls.admits
  | .set s => .scanOne setting s.contains
  | .range first last => .scanOne setting fun c => first ≤ c && c ≤ last
  | .keyword text none => .keyword setting text.toList (.seesIdCont setting)
  | .keyword text (some rule) => .keyword setting text.toList (.lookAhead (call rule.id))
  | .keywordList selector words =>
    .keywordList setting (evalParser setting call selector) words
  | .sequence l r =>
    .sequence (.skip setting call) (evalParser setting call l) (evalParser setting call r)
  | .alternative l r => .alternative (evalParser setting call l) (evalParser setting call r)
  | .optional body => .optional (evalParser setting call body)
  | .star body => .repeated setting (.skip setting call) (evalParser setting call body) 0
  | .plus body => .repeated setting (.skip setting call) (evalParser setting call body) 1
  | .difference l r => .difference (evalParser setting call l) (evalParser setting call r)
  | .exclusiveOr l r => .exclusiveOr (evalParser setting call l) (evalParser setting call r)
  | .intersection l r => .intersection (evalParser setting call l) (evalParser setting call r)
  | .list element separator =>
    .list setting (.skip setting call) (evalParser setting call element)
      (evalParser setting call separator)
  | .grouping body => evalParser setting call body
  | .token body => .inToken (evalParser setting call body)
  | .expectation body =>
    .orElse (evalParser setting call body) fun start =>
      .failExpectingHere setting body.render start
  | .action action body => .action setting action.run (evalParser setting call body)
  | .nonterminal rule instanceName args =>
    match setting.rules[rule.id.index]? with
    | some target => .nonterminal target instanceName args (call rule.id)
    | none => .fail (.unlinked rule.name)

/-- The step that calling a rule means, up to a depth of nesting given as fuel. -/
def evalRule (setting : Setting V W) : Nat → RuleId → Step V W Match
  | 0, _ => .exhausted
  | fuel + 1, id =>
    match setting.rules[id.index]? with
    | some rule =>
      .activate setting rule (evalParser setting (evalRule setting fuel) rule.definition)
    | none => .fail (.unlinked (toString id.index))

end AttrGrammar.Parse

/-! What can be wrong with a grammar that is to join a domain. -/

namespace AttrGrammar.Peg

inductive LinkError where
  | duplicateGrammar (name : String)
  | unknownGrammar (grammar reference : String)
  | unreferencedGrammar (grammar target : String)
  | duplicateRule (grammar rule : String)
  | ruleNotFound (grammar rule name : String)
  | actionNotFound (grammar rule action : String)
  | argumentCountMismatch (grammar rule name : String) (expected found : Nat)
  | missingStartRule (grammar rule : String)
  | missingSkipRule (grammar rule : String)
  | skipRuleWithAttributes (grammar rule : String) (inherited : Nat)
  | invalidRulePath (grammar path : String)
  deriving DecidableEq

/-- The error in words. -/
def LinkError.message : LinkError → String
  | duplicateGrammar name => s!"grammar '{name}' is already part of the domain"
  | unknownGrammar grammar reference =>
    s!"grammar '{grammar}' references '{reference}', which has not been added to the domain"
  | unreferencedGrammar grammar target =>
    s!"grammar '{grammar}' links to '{target}' without referencing its grammar"
  | duplicateRule grammar rule => s!"grammar '{grammar}' defines rule '{rule}' more than once"
  | ruleNotFound grammar rule name => s!"rule '{grammar}.{rule}' refers to unknown rule '{name}'"
  | actionNotFound grammar rule action =>
    s!"rule '{grammar}.{rule}' uses action '{action}', which it does not define"
  | argumentCountMismatch grammar rule name expected found =>
    s!"rule '{grammar}.{rule}' calls '{name}' with {found} arguments but it declares {expected} " ++
      "inherited attributes"
  | missingStartRule grammar rule => s!"grammar '{grammar}' names unknown start rule '{rule}'"
  | missingSkipRule grammar rule => s!"grammar '{grammar}' names unknown skip rule '{rule}'"
  | skipRuleWithAttributes grammar rule inherited =>
    s!"skip rule '{rule}' of grammar '{grammar}' declares {inherited} inherited attributes"
  | invalidRulePath grammar path => s!"grammar '{grammar}' has invalid rule path '{path}'"

end AttrGrammar.Peg

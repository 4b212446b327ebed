import AttrGrammar.Parse.Location

/-! Errors that end a parse. -/

namespace AttrGrammar.Parse

inductive ParseError where
  /-- Something expected did not match, or the start rule did not match the whole input. -/
  | expectation (expected : String) (location : Location)
  /-- An action raised an error, or the grammar cannot be parsed with. -/
  | exception (reason : String) (location : Location)
  /-- One more activation would have been too many. -/
  | recursionLimitExceeded (rule : String) (maxDepth : Nat) (location : Location)
  | inputTooLarge (length maxLength : Nat)
  | argumentCount (rule : String) (expected found : Nat)
  | valueStackUnderflow (rule : String)
  | missingRuleValue (rule : String)
  | missingArgument (rule : String) (index : Nat)
  | unknownGrammar (name : String)
  | unlinked (name : String)
  | log

namespace ParseError

/-- Where the error lies, if it lies anywhere in the input. -/
def location? : ParseError → Option Location
  | expectation _ l | exception _ l | recursionLimitExceeded _ _ l => some l
  | _ => none

/-- The error in one line of words. -/
def message : ParseError → String
  | expectation expected l => s!"{l}: expected {expected}"
  | exception reason l => s!"{l}: {reason}"
  | recursionLimitExceeded rule maxDepth l =>
    s!"{l}: rule '{rule}' exceeds the nesting limit of {maxDepth} activations"
  | inputTooLarge length maxLength =>
    s!"input of {length} code points exceeds the limit of {maxLength}"
  | argumentCount rule expected found =>
    s!"rule '{rule}' declares {expected} inherited attributes but {found} values were supplied"
  | valueStackUnderflow rule => s!"rule '{rule}' found no value on the value stack"
  | missingRuleValue rule => s!"rule '{rule}' matched without producing its value"
  | missingArgument rule index =>
    s!"argument {index} for rule '{rule}' is not available in the calling frame"
  | unknownGrammar name => s!"grammar '{name}' is not part of the domain"
  | unlinked name => s!"'{name}' was evaluated before its grammar was linked"
  | log => "failed to write the parse log"

/-- The message, with an excerpt of the input if the error lies in it. -/
def render (e : ParseError) : String :=
  match e.location? with
  | some l => e.message ++ "\n" ++ l.excerpt
  | none => e.message

end ParseError

end AttrGrammar.Parse

import AttrGrammar.Peg.Rule
import AttrGrammar.Parse.Match
import AttrGrammar.Parse.Notice
import AttrGrammar.Parse.ParseError
import AttrGrammar.Parse.ValueStack
import AttrGrammar.Scan.Scanner

/-! What a parse works with: the setting, which stays fixed, the state, which changes, and the ways
in which it can break off. -/

namespace AttrGrammar.Parse
open Text Scan Peg

/-- What stays fixed during a parse: the rule table, the source, the skip rule of the grammar, and
how many activations may be open at once (zero means any number). -/
structure Setting (V W : Type) where
  rules : Array (Rule V W)
  source : Source
  skipRule : Option RuleId
  maxDepth : Nat

/-- What changes during a parse. `depth` counts the open activations, `frame` belongs to the
innermost one, `notices` come with the last one first, and `world` belongs to the client. -/
structure State (V W : Type) where
  scanner : Scanner
  depth : Nat
  stack : ValueStack V
  frame : Frame V
  notices : List Notice
  world : W

/-- Why a step did not come to its end: an error of the parse, or no fuel left to go on. -/
inductive Failure where
  | error (e : ParseError)
  | outOfFuel

namespace Setting

variable {V W : Type}

/-- A stretch of the source as the location of an error. -/
def location (setting : Setting V W) (span : Span) : Location :=
  ⟨setting.source.fileName, span, setting.source.text⟩

end Setting

end AttrGrammar.Parse

import AttrGrammar.Peg.Id
import AttrGrammar.Peg.Render
import AttrGrammar.Text.Slice
import AttrGrammar.Text.Span

/-! Rules: as they are declared, with names for everything they refer to, and as they stand in the
rule table of a domain. -/

namespace AttrGrammar.Peg
open Text

/-- What an action sees and what it leaves behind: the frame of its rule, the text that its parser
matched and where, whether the match stands, and an error to end the parse with. `world` belongs to
the client of the parser: actions may change it, and nothing takes a change back. -/
structure ActionContext (V W : Type) where
  frame : Frame V
  text : Slice
  span : Span
  fileName : String
  pass : Bool
  error : Option String
  world : W

namespace ActionContext

variable {V W : Type}

/-- Makes the parser fail after all. -/
def reject (ctx : ActionContext V W) : ActionContext V W := { ctx with pass := false }

/-- Ends the parse with a message. -/
def raise (ctx : ActionContext V W) (message : String) : ActionContext V W :=
  { ctx with error := some message }

def setValue (ctx : ActionContext V W) (v : V) : ActionContext V W :=
  { ctx with frame := ctx.frame.setValue v }

def takeInstance (ctx : ActionContext V W) (name : String) : Option V × ActionContext V W :=
  let (v, frame) := ctx.frame.takeInstance name
  (v, { ctx with frame })

end ActionContext

/-- A named point of a rule at which the client's code runs. -/
structure Action (V W : Type) where
  name : String
  run : ActionContext V W → ActionContext V W

/-- A rule as it is declared. `info` is what an error message says was expected, `valueType` the
kind of value that the rule returns. -/
structure RuleDecl (V W : Type) where
  name : String
  definition : Definition V
  info : Option String := none
  valueType : Option String := none
  inherited : List String := []
  locals : List String := []
  actions : List (Action V W) := []

/-- Adds an action; one with the same name is replaced where it stands. -/
def RuleDecl.withAction {V W : Type} (rule : RuleDecl V W) (name : String)
    (run : ActionContext V W → ActionContext V W) : RuleDecl V W :=
  { rule with
    actions :=
      if rule.actions.any (·.name = name) then
        rule.actions.map fun a => if a.name = name then ⟨name, run⟩ else a
      else rule.actions ++ [⟨name, run⟩] }

/-- A rule to be called: the name in the grammar and the place in the rule table. -/
structure RuleRef where
  name : String
  id : RuleId
  deriving DecidableEq

instance : Named RuleRef := ⟨RuleRef.name⟩

/-- A tree that refers to entries of a rule table and to the actions of its rule. -/
abbrev LinkedParser (V W : Type) := Parser V RuleRef (Action V W)

structure Rule (V W : Type) where
  id : RuleId
  name : String
  fullName : String
  info : String
  definition : LinkedParser V W
  valueType : Option String
  inherited : List String
  locals : List String
  actions : List (Action V W)

namespace Rule

variable {V W : Type}

def hasValue (rule : Rule V W) : Bool := rule.valueType.isSome

theorem hasValue_eq_true_iff {rule : Rule V W} :
    rule.hasValue = true ↔ ∃ type, rule.valueType = some type :=
  Option.isSome_iff_exists

theorem not_hasValue_iff {rule : Rule V W} : ¬ rule.hasValue = true ↔ rule.valueType = none :=
  Option.not_isSome_iff_eq_none

def render (rule : Rule V W) : String :=
  rule.name ++
    (if rule.inherited.isEmpty then "" else "(" ++ ", ".intercalate rule.inherited ++ ")") ++
    (match rule.valueType with | some t => " : " ++ t | none => "") ++
    " ::= " ++ rule.definition.render ++ ";"

instance : Describe (Rule V W) where
  describe rule := recordText "Rule"
    [("id", describe rule.id), ("full_name", describe rule.fullName),
     ("value_type", describe rule.valueType), ("inherited", describe rule.inherited),
     ("locals", describe rule.locals)]

end Rule

end AttrGrammar.Peg

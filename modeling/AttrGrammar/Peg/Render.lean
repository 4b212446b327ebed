import AttrGrammar.Peg.Parser

/-! The notation in which parser trees are shown, such as `'a' b* ("cd" | [0-9]+)`. Operators bind
by level and parentheses are added where a part binds more loosely than its place allows. Actions
are not shown, and a call is shown with its name only where that differs from the rule's. -/

namespace AttrGrammar.Peg
open Text

/-- Types whose values are known to a grammar by a name. -/
class Named (α : Type) where
  name : α → String

instance : Named String := ⟨id⟩

namespace Parser

variable {V ρ α : Type}

/-- How tightly a tree holds together: the larger, the tighter. -/
def level : Parser V ρ α → Nat
  | alternative .. => 1
  | difference .. | exclusiveOr .. | intersection .. => 2
  | sequence .. => 3
  | list .. => 4
  | optional _ | star _ | plus _ | expectation _ => 5
  | action _ body => body.level
  | _ => 6

/-- Parentheses around the text of a part that binds more loosely than `least`. -/
def guarded (least : Nat) (part : Parser V ρ α) (text : String) : String :=
  if part.level < least then "(" ++ text ++ ")" else text

def render [Named ρ] : Parser V ρ α → String
  | empty => "empty"
  | anyChar => "anychar"
  | atEnd => "end"
  | char c => quotedWith '\x27' c.toString
  | literal text => quotedWith '"' text
  | oneOf cls => cls.name
  | set s => toString s
  | range first last => "range('" ++ escapedChar first ++ "', '" ++ escapedChar last ++ "')"
  | keyword text _ => quotedWith '"' text
  | keywordList selector words =>
    "keyword_list(" ++ selector.render ++ ", " ++ " ".intercalate (vocabulary words) ++ ")"
  | sequence l r => guarded 3 l l.render ++ " " ++ guarded 3 r r.render
  | alternative l r => guarded 1 l l.render ++ " | " ++ guarded 1 r r.render
  | difference l r => guarded 2 l l.render ++ " - " ++ guarded 3 r r.render
  | exclusiveOr l r => guarded 2 l l.render ++ " ^ " ++ guarded 3 r r.render
  | intersection l r => guarded 2 l l.render ++ " & " ++ guarded 3 r r.render
  | list element separator =>
    guarded 5 element element.render ++ " % " ++ guarded 5 separator separator.render
  | optional body => guarded 6 body body.render ++ "?"
  | star body => guarded 6 body body.render ++ "*"
  | plus body => guarded 6 body body.render ++ "+"
  | expectation body => guarded 6 body body.render ++ "!"
  | grouping body => "(" ++ body.render ++ ")"
  | token body => "token(" ++ body.render ++ ")"
  | action _ body => body.render
  | nonterminal rule instanceName _ =>
    let name := Named.name rule
    if instanceName = name then name else name ++ ":" ++ instanceName

instance [Named ρ] : Describe (Parser V ρ α) := ⟨fun p => variantText "Parser" p.render⟩

end Parser

end AttrGrammar.Peg

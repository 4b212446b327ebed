import AttrGrammar.Peg.CharClass
import AttrGrammar.Peg.CharSet
import AttrGrammar.Peg.Frame

/-! Parser trees. A tree describes which texts a rule matches and where its actions run. How it
refers to other rules and to actions is left open: a grammar as it is declared refers to both by
name, and a linked one to entries of a rule table and to the actions themselves. -/

namespace AttrGrammar.Peg

/-- The value of an inherited attribute, computed from the frame of the caller. -/
abbrev Argument (V : Type) := Frame V → Option V

/-- An argument that passes on an attribute which the caller itself inherited. -/
def forward {V : Type} (name : String) : Argument V := fun frame => frame.inherited? name

/-- A parser tree with values in `V` that refers to rules by `ρ` and to actions by `α`. -/
inductive Parser (V ρ α : Type) where
  | empty
  | anyChar
  | atEnd
  | char (c : Char)
  | literal (text : String)
  | oneOf (cls : CharClass)
  | set (set : CharSet)
  /-- Matches one character between two bounds, both included. -/
  | range (first last : Char)
  /-- Matches a word that does not go on: no identifier character follows it, or, where a rule is
  given, that rule does not match after it. -/
  | keyword (text : String) (continuation : Option ρ)
  /-- Matches what the selector matches if that is one of the words. -/
  | keywordList (selector : Parser V ρ α) (words : List String)
  | sequence (left right : Parser V ρ α)
  /-- Ordered choice: the right side is tried only where the left one fails. -/
  | alternative (left right : Parser V ρ α)
  | optional (body : Parser V ρ α)
  | star (body : Parser V ρ α)
  | plus (body : Parser V ρ α)
  /-- The left side, unless the right one matches at least as much. -/
  | difference (left right : Parser V ρ α)
  /-- One of the two sides where the other fails. -/
  | exclusiveOr (left right : Parser V ρ α)
  /-- The left side, if the right one matches the same text. -/
  | intersection (left right : Parser V ρ α)
  /-- One or more elements with separators between them. -/
  | list (element separator : Parser V ρ α)
  /-- Parentheses, for the reader only. -/
  | grouping (body : Parser V ρ α)
  /-- Keeps the skip rule out of its body. -/
  | token (body : Parser V ρ α)
  /-- Turns a failure of its body into an error that ends the parse. -/
  | expectation (body : Parser V ρ α)
  /-- Runs an action whenever its body has matched. -/
  | action (action : α) (body : Parser V ρ α)
  /-- Calls a rule and stores its value under the name of the call. -/
  | nonterminal (rule : ρ) (instanceName : String) (args : List (Argument V))

abbrev Definition (V : Type) := Parser V String String

namespace Parser

variable {V ρ α : Type}

instance : Inhabited (Parser V ρ α) := ⟨empty⟩

/-- Combines parts from the left; no parts at all give the empty parser. -/
def combine (join : Parser V ρ α → Parser V ρ α → Parser V ρ α) :
    List (Parser V ρ α) → Parser V ρ α
  | [] => empty
  | first :: rest => rest.foldl join first

def seq (parts : List (Parser V ρ α)) : Parser V ρ α := combine sequence parts

def choice (parts : List (Parser V ρ α)) : Parser V ρ α := combine alternative parts

/-- Calls a rule without arguments under its own name. -/
def call (rule : String) : Definition V := nonterminal rule rule []

def callAs (rule instanceName : String) : Definition V := nonterminal rule instanceName []

/-- A word that no identifier character follows. -/
def word (text : String) : Definition V := keyword text none

def oneFrom (source : String) : Definition V := set (.new source)

def noneFrom (source : String) : Definition V := set (.inverse source)

end Parser

/-- Puts a word into its place in an ascending list, unless it is there already. -/
def insertWord (word : String) : List String → List String
  | [] => [word]
  | w :: rest =>
    if word < w then word :: w :: rest
    else if word = w then w :: rest
    else w :: insertWord word rest

/-- The words of a list in ascending order without repetitions. -/
def vocabulary : List String → List String
  | [] => []
  | word :: rest => insertWord word (vocabulary rest)

end AttrGrammar.Peg

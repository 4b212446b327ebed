import AttrGrammar.Xml.Event
import AttrGrammar.Text.Alphabetic

/-! Documents as trees: how a tree is written, and the events that describe it. Texts and attribute
values may be any strings, for the characters that would begin markup are written as references.
Names, comments and processing instructions have no such way out, so what they can hold is part of
their types. -/

namespace AttrGrammar.Xml
open Text

/-- Characters that begin a name. -/
def isNameStart (c : Char) : Bool := isAlphabetic c || c == '_' || c == ':'

/-- Characters that go on with a name. -/
def isNameChar (c : Char) : Bool :=
  isAlphabetic c || c.isDigit || c == '.' || c == '_' || c == ':' || c == '-'

/-- Characters that part names from what follows them. -/
def isBlank (c : Char) : Bool := c == ' ' || c == '\t' || c == '\r' || c == '\n'

structure Name where
  text : String
  valid : ∃ first rest, text.toList = first :: rest ∧ isNameStart first ∧ ∀ c ∈ rest, isNameChar c

/-- A text that is not empty. -/
structure CharData where
  text : String
  valid : text ≠ ""

/-- What a comment can hold. -/
structure CommentText where
  text : String
  valid : ¬ "--".toList <:+: text.toList ∧ text.toList.getLast? ≠ some '-'

/-- What a processing instruction can hold behind its target. -/
structure InstructionData where
  text : String
  valid : ¬ "?>".toList <:+: text.toList ∧ ∀ c ∈ text.toList.head?, isBlank c = false

/-- What a document is made of. -/
inductive Node where
  | text (t : CharData)
  | element (name : Name) (attributes : List (Name × String)) (children : List Node)
  | comment (t : CommentText)
  | instruction (target : Name) (data : InstructionData)

/-- The name of a character that cannot stand for itself; a quotation mark can, but not in quotes. -/
def entityOf? (quoted : Bool) (c : Char) : Option String :=
  if c = '&' then some "amp"
  else if c = '<' then some "lt"
  else if quoted && c == '"' then some "quot"
  else none

/-- A character as it is written. -/
def spelling (quoted : Bool) (c : Char) : String :=
  match entityOf? quoted c with
  | some name => "&" ++ name ++ ";"
  | none => c.toString

/-- A text with references in place of the characters that cannot stand for themselves. -/
def escape (quoted : Bool) (t : String) : String :=
  .ofList (t.toList.flatMap fun c => (spelling quoted c).toList)

def serializeAttribute (name : Name) (value : String) : String :=
  " " ++ name.text ++ "=\"" ++ escape true value ++ "\""

def serializeAttributes : List (Name × String) → String
  | [] => ""
  | (name, value) :: rest => serializeAttribute name value ++ serializeAttributes rest

mutual

def Node.serialize : Node → String
  | .text t => escape false t.text
  | .element name attributes children =>
    "<" ++ name.text ++ serializeAttributes attributes ++ ">" ++ serializeAll children ++
      "</" ++ name.text ++ ">"
  | .comment t => "<!--" ++ t.text ++ "-->"
  | .instruction target data =>
    "<?" ++ target.text ++ (if data.text = "" then "" else " " ++ data.text) ++ "?>"

/-- Nodes one behind the other. -/
def serializeAll : List Node → String
  | [] => ""
  | n :: rest => n.serialize ++ serializeAll rest

end

mutual

/-- The events that describe a node. -/
def Node.events : Node → List Event
  | .text t => [.text t.text]
  | .element name attributes children =>
    .beginStartTag name.text :: attributes.map (fun a => .attr a.1.text a.2) ++
      .endStartTag :: eventsOfAll children ++ [.endTag name.text]
  | .comment t => [.comment t.text]
  | .instruction target data => [.processingInstruction target.text data.text]

def eventsOfAll : List Node → List Event
  | [] => []
  | n :: rest => n.events ++ eventsOfAll rest

end

/-- The events that describe a document with an outermost element. -/
def documentEvents (root : Node) : List Event := .startDocument :: root.events ++ [.endDocument]

def Node.isText : Node → Bool
  | .text _ => true
  | _ => false

/-- The first node is a text. -/
def startsWithText : List Node → Bool
  | [] => false
  | n :: _ => n.isText

mutual

/-- No text stands directly behind another text anywhere in the tree. -/
def Node.TextsApart : Node → Prop
  | .element _ _ children => AllTextsApart children
  | _ => True

def AllTextsApart : List Node → Prop
  | [] => True
  | n :: rest => n.TextsApart ∧ ¬ (n.isText ∧ startsWithText rest) ∧ AllTextsApart rest

end

end AttrGrammar.Xml

import AttrGrammar.Peg.Domain
import AttrGrammar.Text.Numeral
import AttrGrammar.Xml.Event

/-! The grammar of documents, which reports their structure as it goes along: elements, attributes,
character and entity references, character data sections, comments and processing instructions.
There is no skip rule, for blanks are character data. Every rule that reports events inherits the
attribute `processor`. -/

namespace AttrGrammar.Xml
open Text Peg

/-- The attributes of the grammar: the right to report events, or a text. -/
inductive Value where
  | processor
  | text (t : String)
  deriving DecidableEq

def Value.text? : Value → Option String
  | text t => some t
  | processor => none

instance : Describe Value where
  describe
    | .processor => "Processor"
    | .text t => variantText "Text" (describe t)

variable {σ : Type}

/-- What actions of the grammar work on: their frame, and the receiver of the events. -/
abbrev Context (σ : Type) := ActionContext Value (Receiver σ)

/-- The characters that have a name of their own. -/
def entities : List (String × Char) :=
  [("lt", '<'), ("gt", '>'), ("amp", '&'), ("apos", '\x27'), ("quot", '"')]

namespace Context

/-- Reports events, provided the rule inherited the right to and the receiver is free. -/
def emit (events : List Event) (ctx : Context σ) : Context σ :=
  match ctx.frame.inherited? "processor" with
  | some .processor =>
    if ctx.world.isBusy then ctx.raise "xml processor is already in use"
    else { ctx with world := ctx.world.takeAll events }
  | _ => ctx.raise "no xml processor in scope"

def takeText (instanceName : String) (ctx : Context σ) : Option String × Context σ :=
  let (v, ctx) := ctx.takeInstance instanceName
  (v.bind Value.text?, ctx)

def takeLocalText (name : String) (ctx : Context σ) : Option String × Context σ :=
  let (v, frame) := ctx.frame.takeLocal name
  (v.bind Value.text?, { ctx with frame })

def setLocalText (name t : String) (ctx : Context σ) : Context σ :=
  { ctx with frame := (ctx.frame.setLocal name (.text t)).2 }

def setText (t : String) (ctx : Context σ) : Context σ := ctx.setValue (.text t)

def appendText (t : String) (ctx : Context σ) : Context σ :=
  { ctx with frame := ctx.frame.modifyValue fun
    | .text before => .text (before ++ t)
    | v => v }

def matched (ctx : Context σ) : String := toString ctx.text

/-- Reports the matched text as an event. -/
def emitMatched (event : String → Event) (ctx : Context σ) : Context σ :=
  emit [event (matched ctx)] ctx

/-- Reports the beginning of a start tag and remembers its name. -/
def beginElement (ctx : Context σ) : Context σ :=
  match takeText "Name" ctx with
  | (some name, ctx) => emit [.beginStartTag name] (setLocalText "tag" name ctx)
  | (none, ctx) => ctx.reject

/-- Reports the end of an element that has no content. -/
def closeEmpty (ctx : Context σ) : Context σ :=
  let (tag, ctx) := takeLocalText "tag" ctx
  emit [.endStartTag, .endTag (tag.getD "")] ctx

/-- Reports an end tag, which has to have the name of the start tag. -/
def closeElement (ctx : Context σ) : Context σ :=
  let (name, ctx) := takeText "Name" ctx
  let found := name.getD ""
  let (tag, ctx) := takeLocalText "tag" ctx
  match tag with
  | some expected =>
    if expected = found then emit [.endTag found] ctx
    else ctx.raise s!"end tag '{found}' does not match start tag '{expected}'"
  | none => ctx.raise s!"end tag '{found}' has no start tag"

def emitAttribute (ctx : Context σ) : Context σ :=
  let (name, ctx) := takeText "Name" ctx
  let (value, ctx) := takeText "AttributeValue" ctx
  match name, value with
  | some name, some value => emit [.attr name value] ctx
  | _, _ => ctx.reject

/-- Adds what a reference stands for to the text to be returned. -/
def appendReference (ctx : Context σ) : Context σ :=
  match takeText "Reference" ctx with
  | (some t, ctx) => appendText t ctx
  | (none, ctx) => ctx

/-- Reports what a reference stands for as a text. -/
def emitReference (ctx : Context σ) : Context σ :=
  match takeText "Reference" ctx with
  | (some t, ctx) => emit [.text t] ctx
  | (none, ctx) => ctx

/-- Returns the character of a number given by its digits. -/
def readCharacter (base : Nat) (ctx : Context σ) : Context σ :=
  match charOfNumber? (numeral base ctx.text.toList) with
  | some c => setText c.toString ctx
  | none => ctx.raise s!"'{matched ctx}' is not a valid character reference"

/-- Returns the character of a name. -/
def readEntity (ctx : Context σ) : Context σ :=
  let (name, ctx) := takeText "Name" ctx
  let name := name.getD ""
  match entities.lookup name with
  | some c => setText c.toString ctx
  | none => ctx.raise s!"undefined entity '&{name};'"

def emitInstruction (ctx : Context σ) : Context σ :=
  let (target, ctx) := takeText "Name" ctx
  let (data, ctx) := takeLocalText "data" ctx
  emit [.processingInstruction (target.getD "") (data.getD "")] ctx

end Context

open Context

/-- Calls a rule and hands on the right to report events. -/
def callReporting (rule : String) : Definition Value :=
  .nonterminal rule rule [forward "processor"]

/-- Matches something, or ends the parse. -/
def required (body : Definition Value) : Definition Value := .expectation body

/-- Blanks that may be missing. -/
def blanks : Definition Value := .optional (.call "S")

/-- A value between quotes of one kind, which may contain references but neither the quote itself
nor a character that begins markup. -/
def quotedValue (quote : Char) : Definition Value :=
  .seq
    [.action "open" (.char quote),
     .star (.alternative (.action "chars" (.plus (.noneFrom ("<&" ++ quote.toString))))
       (.action "reference" (.call "Reference"))),
     required (.char quote)]

/-- Everything up to a mark. -/
def upTo (mark : String) : Definition Value := .star (.difference .anyChar (.literal mark))

def nameTree : Definition Value :=
  .action "value" <| .token <| .sequence (.alternative (.oneOf .letter) (.oneFrom "_:"))
    (.star (.choice [.oneOf .letter, .oneOf .digit, .oneFrom "._:-"]))

def elementTree : Definition Value :=
  .seq
    [.char '<', .action "begin" (.call "Name"),
     .star (.sequence (.call "S") (callReporting "Attribute")), blanks,
     required <| .alternative (.action "empty" (.literal "/>")) <| .seq
       [.action "open" (.char '>'), callReporting "Content",
        required <| .seq
          [.literal "</", .action "close" (required (.call "Name")), blanks, required (.char '>')]]]

def referenceTree : Definition Value :=
  .seq
    [.char '&',
     required <| .choice
       [.sequence (.literal "#x") (.action "hex" (.plus (.oneOf .hexDigit))),
        .sequence (.char '#') (.action "decimal" (.plus (.oneOf .digit))),
        .action "entity" (.call "Name")],
     required (.char ';')]

def documentRules : List (RuleDecl Value (Receiver σ)) :=
  [{ name := "Document", info := some "document", inherited := ["processor"]
     definition := .action "end" <| .seq
       [.action "start" .empty, .star (callReporting "Misc"),
        required (callReporting "Element"), .star (callReporting "Misc")]
     actions := [⟨"start", emit [.startDocument]⟩, ⟨"end", emit [.endDocument]⟩] },
   { name := "Misc", inherited := ["processor"]
     definition := .choice
       [callReporting "Comment", callReporting "ProcessingInstruction", .call "S"] },
   { name := "Element", info := some "element", inherited := ["processor"], locals := ["tag"]
     definition := elementTree
     actions := [⟨"begin", beginElement⟩, ⟨"empty", closeEmpty⟩, ⟨"open", emit [.endStartTag]⟩,
       ⟨"close", closeElement⟩] },
   { name := "Attribute", info := some "attribute", inherited := ["processor"]
     definition := .action "add" <| .seq
       [.call "Name", blanks, required (.char '='), blanks, required (.call "AttributeValue")]
     actions := [⟨"add", emitAttribute⟩] },
   { name := "AttributeValue", info := some "attribute value", valueType := some "Text"
     definition := .alternative (quotedValue '"') (quotedValue '\x27')
     actions := [⟨"open", setText ""⟩, ⟨"chars", fun ctx => appendText (matched ctx) ctx⟩,
       ⟨"reference", appendReference⟩] },
   { name := "Content", info := some "content", inherited := ["processor"]
     definition := .star <| .choice
       [callReporting "CharData", callReporting "Element", .action "reference" (.call "Reference"),
        callReporting "CDataSection", callReporting "ProcessingInstruction",
        callReporting "Comment"]
     actions := [⟨"reference", emitReference⟩] },
   { name := "CharData", info := some "character data", inherited := ["processor"]
     definition := .action "text" (.plus (.noneFrom "<&"))
     actions := [⟨"text", emitMatched .text⟩] },
   { name := "Reference", info := some "reference", valueType := some "Text"
     definition := referenceTree
     actions := [⟨"hex", readCharacter 16⟩, ⟨"decimal", readCharacter 10⟩,
       ⟨"entity", readEntity⟩] },
   { name := "CDataSection", info := some "CDATA section", inherited := ["processor"]
     definition := .seq
       [.literal "<![CDATA[", .action "text" (upTo "]]>"), required (.literal "]]>")]
     actions := [⟨"text", emitMatched .text⟩] },
   { name := "Comment", info := some "comment", inherited := ["processor"]
     definition := .seq [.literal "<!--", .action "text" (upTo "--"), required (.literal "-->")]
     actions := [⟨"text", emitMatched .comment⟩] },
   { name := "ProcessingInstruction", info := some "processing instruction"
     inherited := ["processor"], locals := ["data"]
     definition := .action "emit" <| .seq
       [.literal "<?", .call "Name",
        .optional (.sequence (.call "S") (.action "data" (upTo "?>"))),
        required (.literal "?>")]
     actions := [⟨"data", fun ctx => setLocalText "data" (matched ctx) ctx⟩,
       ⟨"emit", emitInstruction⟩] },
   { name := "Name", info := some "name", valueType := some "Text"
     definition := nameTree
     actions := [⟨"value", fun ctx => setText (matched ctx) ctx⟩] },
   { name := "S", info := some "white space", definition := .plus (.oneFrom " \t\r\n") }]

def documentGrammar : GrammarDecl Value (Receiver σ) :=
  { name := "XmlGrammar", nameSpace := some "xml", rules := documentRules
    start := some "Document" }

end AttrGrammar.Xml

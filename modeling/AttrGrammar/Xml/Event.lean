import AttrGrammar.Text.Escape

/-! The structure of a document as a sequence of events, and who receives them. -/

namespace AttrGrammar.Xml
open Text

inductive Event where
  | startDocument
  | endDocument
  | beginStartTag (name : String)
  | attr (name value : String)
  | endStartTag
  | endTag (name : String)
  | text (text : String)
  | comment (text : String)
  | processingInstruction (target data : String)
  deriving DecidableEq

def Event.render : Event → String
  | startDocument => "start document"
  | endDocument => "end document"
  | beginStartTag name => "<" ++ name
  | attr name value => "  " ++ name ++ "=" ++ doubleQuoted value
  | endStartTag => ">"
  | endTag name => "</" ++ name ++ ">"
  | text t => "text " ++ doubleQuoted t
  | comment t => "comment " ++ doubleQuoted t
  | processingInstruction target data => "pi " ++ target ++ " " ++ doubleQuoted data

/-- Recorded events, the last one first. -/
structure Recording where
  newestFirst : List Event
  deriving DecidableEq

namespace Recording

def empty : Recording := ⟨[]⟩

/-- The events in the order in which they came. -/
def toList (recording : Recording) : List Event := recording.newestFirst.reverse

/-- Adds an event to a recording. A text behind another text becomes part of it. -/
def record (event : Event) (recording : Recording) : Recording :=
  match event, recording.newestFirst with
  | .text t, .text before :: rest => ⟨.text (before ++ t) :: rest⟩
  | event, events => ⟨event :: events⟩

end Recording

/-- The receiver of the events of one parse: how it takes an event, what it has made of the events
so far, and whether it is at work elsewhere and cannot take any. -/
structure Receiver (σ : Type) where
  take : Event → σ → σ
  state : σ
  isBusy : Bool

namespace Receiver

variable {σ : Type}

/-- Hands events over, the first one first. -/
def takeAll (receiver : Receiver σ) (events : List Event) : Receiver σ :=
  { receiver with state := events.foldl (fun s e => receiver.take e s) receiver.state }

def recorder : Receiver Recording := ⟨Recording.record, .empty, false⟩

/-- Pays no attention to events. -/
def deaf (state : σ) : Receiver σ := ⟨fun _ s => s, state, false⟩

end Receiver

end AttrGrammar.Xml

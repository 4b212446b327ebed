import AttrGrammar.Text.Record
import AttrGrammar.Text.Slice

/-! The trace of a parse: one element per rule activation, indented by two spaces per level, holding
a line with the text that lies ahead, the activations inside, and a line that tells how it ended. It
is written to a sink that may run out of room. -/

namespace AttrGrammar.Scan
open Text

/-- A receiver of bytes: the pieces written to it, the last one first, for how many more bytes it
has room (if there is a bound), and whether it is unable to flush. -/
structure Sink where
  pieces : List ByteArray
  room : Option Nat
  flushFails : Bool

namespace Sink

/-- An empty sink with room for everything. -/
def unlimited : Sink := ⟨[], none, false⟩

/-- An empty sink with room for `capacity` bytes. -/
def limited (capacity : Nat) : Sink := ⟨[], some capacity, false⟩

def bytes (sink : Sink) : ByteArray := sink.pieces.reverse.foldl (· ++ ·) ByteArray.empty

/-- Takes the bytes of a text, or as many of them as there is room for. Tells whether all were
taken. -/
def write (sink : Sink) (text : String) : Bool × Sink :=
  let piece := text.toUTF8
  match sink.room with
  | none => (true, { sink with pieces := piece :: sink.pieces })
  | some room =>
    if piece.size ≤ room then
      (true, { sink with pieces := piece :: sink.pieces, room := some (room - piece.size) })
    else (false, { sink with pieces := piece.extract 0 room :: sink.pieces, room := some 0 })

/-- The text whose bytes were written. Where the room ended inside a character, a replacement
character stands for its part. -/
def text (sink : Sink) : String :=
  let bytes := sink.bytes
  let without (missing : Nat) : Option String :=
    String.fromUTF8? (bytes.extract 0 (bytes.size - missing))
  match String.fromUTF8? bytes with
  | some s => s
  | none => (((without 1).or (without 2)).or (without 3)).getD "" ++ "\uFFFD"

def flush (sink : Sink) : Bool := !sink.flushFails

end Sink

/-- A trace being written: how many elements are open, how much input a line may show, and the sink.
-/
structure TraceLog where
  indent : Nat
  maxLineLength : Nat
  sink : Sink

/-- The form in which input stands in a trace line: no character of it can be taken for an element
or end the line. -/
def traceEscape : Char → String
  | '&' => "&amp;"
  | '<' => "&lt;"
  | '>' => "&gt;"
  | '\n' => "\\n"
  | '\r' => "\\r"
  | '\t' => "\\t"
  | c => c.toString

namespace TraceLog

/-- How many code points of input a trace line shows unless told otherwise. -/
def defaultLineLength : Nat := 80

def into (sink : Sink) (maxLineLength : Nat) : TraceLog := ⟨0, maxLineLength, sink⟩

/-- Writes one line at the present depth. Each operation below tells whether its line was written.
-/
def writeLine (log : TraceLog) (line : String) : Bool × TraceLog :=
  let (done, sink) := log.sink.write (String.join (List.replicate log.indent "  ") ++ line ++ "\n")
  (done, { log with sink })

/-- The escaped first code points of a text. -/
def shown (log : TraceLog) (text : Slice) : String :=
  String.join ((text.firstChars log.maxLineLength).map traceEscape)

def beginRule (log : TraceLog) (name : String) : Bool × TraceLog :=
  match log.writeLine s!"<{name}>" with
  | (true, log) => (true, { log with indent := log.indent + 1 })
  | (false, log) => (false, log)

def endRule (log : TraceLog) (name : String) : Bool × TraceLog :=
  { log with indent := log.indent - 1 }.writeLine s!"</{name}>"

/-- Shows the text that lies ahead of an activation. -/
def tryInput (log : TraceLog) (text : Slice) : Bool × TraceLog :=
  log.writeLine s!"<try>{log.shown text}</try>"

/-- Shows the text that an activation matched. -/
def success (log : TraceLog) (text : Slice) : Bool × TraceLog :=
  log.writeLine s!"<success>{log.shown text}</success>"

def fail (log : TraceLog) : Bool × TraceLog := log.writeLine "<fail/>"

instance : Describe TraceLog where
  describe log := recordText "ParseLog"
    [("indent", describe log.indent), ("max_line_length", describe log.maxLineLength)]

end TraceLog

end AttrGrammar.Scan

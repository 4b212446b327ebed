import AttrGrammar.Cpp.Parse
import AttrGrammar.Xml.Parse

/-! The command line, apart from reading files and printing: what a command is, and what it answers
for the bytes of the file it names. -/

namespace AttrGrammar
open Scan Peg Parse

inductive Language where
  | cpp
  | xml
  deriving DecidableEq

structure Command where
  language : Language
  file : String
  trace : Bool := false
  maxDepth : Nat := 256

/-- What a command answers: its exit code and what it prints. -/
structure Answer where
  code : UInt32
  stdout : String
  stderr : String

namespace Command

/-- A command as it is typed: the language, then options and the file in any order. -/
def parse? : List String → Option Command
  | "cpp" :: args => go { language := .cpp, file := "" } args
  | "xml" :: args => go { language := .xml, file := "" } args
  | _ => none
where
  go (command : Command) : List String → Option Command
    | [] => if command.file.isEmpty then none else some command
    | "--trace" :: rest => go { command with trace := true } rest
    | "--max-depth" :: n :: rest => do go { command with maxDepth := ← n.toNat? } rest
    | file :: rest => if command.file.isEmpty then go { command with file } rest else none

def usage : String := "usage: (cpp | xml) [--trace] [--max-depth n] file"

/-- The answer to a command whose file could not be read or decoded. -/
def unreadable (reason : String) : Answer := ⟨1, "", reason ++ "\n"⟩

/-- The reason why a file that is not there could not be read. -/
def missingFile : String := "No such file or directory (os error 2)"

/-- The reason why bytes that encode no text could not be read. -/
def invalidText : String := "stream did not contain valid UTF-8"

/-- The answer for a report: its result on success; else the error, behind the trace if there is
one. -/
def answerFor (report : Report α W) (shown : α → String) : Answer :=
  let trace := (report.log.map (·.sink.text)).getD ""
  match report.outcome with
  | .ok result => ⟨0, shown result, trace⟩
  | .error (.error e) => ⟨1, "", trace ++ e.render ++ "\n"⟩
  | .error .outOfFuel => ⟨1, "", trace⟩

/-- The answer for the text of the file. -/
def answerText (command : Command) (source : String) : Answer :=
  let config : Config := { maxDepth := command.maxDepth }
  let log := if command.trace then some (TraceLog.into .unlimited config.traceLineLength) else none
  match command.language with
  | .cpp =>
    answerFor (Cpp.parseStatement config source { fileName := command.file, log })
      (·.outline 0)
  | .xml =>
    let report := Xml.parseDocument config source { fileName := command.file, log }
      Xml.Receiver.recorder
    answerFor report fun _ =>
      String.join (report.world.state.toList.map fun event => event.render ++ "\n")

/-- The answer for what reading the file gave: its bytes, or the reason why it could not be read. -/
def answer (command : Command) : Except String ByteArray → Answer
  | .error reason => unreadable reason
  | .ok bytes =>
    match String.fromUTF8? bytes with
    | some source => command.answerText source
    | none => unreadable invalidText

end Command

end AttrGrammar

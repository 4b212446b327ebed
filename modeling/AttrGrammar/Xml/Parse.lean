import AttrGrammar.Peg.Link
import AttrGrammar.Parse.Run
import AttrGrammar.Xml.DocumentGrammar

/-! Parsing documents. -/

namespace AttrGrammar.Xml
open Text Peg Parse

variable {σ : Type}

/-- The domain of the grammar with the given limits. -/
def domain (config : Config) : Domain Value (Receiver σ) :=
  match Domain.empty.add documentGrammar with
  | .ok (_, _, d) => d.withConfig config
  | .error _ => Domain.empty.withConfig config

/-- Parses with the grammar, given what its start rule inherits. -/
def parseWith (config : Config) (input : String) (options : Options Value)
    (receiver : Receiver σ) : Report Unit (Receiver σ) :=
  let d : Domain Value (Receiver σ) := domain config
  match require d "xml.XmlGrammar" with
  | .error e => ⟨.error (.error e), options.log, [], receiver⟩
  | .ok g =>
    let report := parse d g (Buffer.ofString input) options receiver
    { report with outcome := report.outcome.map fun _ => () }

/-- Parses a document and reports its structure to the receiver. -/
def parseDocument (config : Config) (input : String) (options : Options Value)
    (receiver : Receiver σ) : Report Unit (Receiver σ) :=
  parseWith config input { options with args := [.processor] } receiver

end AttrGrammar.Xml

import AttrGrammar.Text.Position

/-! Notices: what linking and parsing tell about their progress, apart from their results. -/

namespace AttrGrammar.Parse
open Text

inductive Notice where
  | linked (grammar : String) (rules links : Nat)
  /-- The parse of a file begins with a rule. -/
  | parsing (file rule : String) (length : Nat)
  | parsed (file : String)
  /-- The parse of a file came no further than this place. -/
  | stopped (file : String) (place : Position)
  | entered (rule : String) (place : Position)
  | left (rule : String) (place : Position) (hit : Bool)
  /-- The trace of an activation that ended with an error could not be closed. -/
  | traceUnclosed (rule : String)
  deriving DecidableEq

namespace Notice

/-- How much a notice matters. -/
def importance : Notice → String
  | linked .. | parsing .. | parsed .. | stopped .. => "DEBUG"
  | entered .. | left .. => "TRACE"
  | traceUnclosed .. => "WARN"

def message : Notice → String
  | linked grammar rules links => s!"linked grammar {grammar} ({rules} rules, {links} links)"
  | parsing file rule length => s!"parsing '{file}' with {rule} ({length} code points)"
  | parsed file => s!"parsed '{file}'"
  | stopped file place => s!"parse of '{file}' stopped at {place}"
  | entered rule place => s!"enter {rule} at {place}"
  | left rule place hit => s!"leave {rule} at {place} " ++ if hit then "(hit)" else "(miss)"
  | traceUnclosed rule => s!"could not close trace of {rule}: failed to write the parse log"

instance : ToString Notice := ⟨fun n => n.importance ++ " " ++ n.message⟩

end Notice

end AttrGrammar.Parse

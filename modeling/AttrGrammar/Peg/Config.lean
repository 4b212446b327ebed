import AttrGrammar.Text.Record

/-! The limits of a parse. -/

namespace AttrGrammar.Peg
open Text

/-- How many activations may be open at once, how many code points an input may have (for both, zero
means any number), and how many code points of input a line of a trace shows. -/
structure Config where
  maxDepth : Nat := 256
  maxInputLength : Nat := 0
  traceLineLength : Nat := 80
  deriving DecidableEq

instance : Describe Config where
  describe c := recordText "ParserConfig"
    [("max_recursion_depth", describe c.maxDepth), ("max_input_len", describe c.maxInputLength),
     ("trace_line_length", describe c.traceLineLength)]

end AttrGrammar.Peg

import AttrGrammar.Text.Position

/-! Half-open stretches of one source file. -/

namespace AttrGrammar.Text

/-- The code points from offset `start` up to but excluding offset `stop` of the file at position
`fileIndex` in the caller's list of files, with the lines on which the stretch starts and stops. -/
structure Span where
  fileIndex : Nat
  start : Nat
  stop : Nat
  startLine : Nat
  stopLine : Nat
  deriving DecidableEq, Inhabited

namespace Span

/-- The stretch between two places of a file. -/
def between (fileIndex : Nat) (first last : Position) : Span :=
  ⟨fileIndex, first.offset, last.offset, first.line, last.line⟩

def emptyAt (fileIndex : Nat) (place : Position) : Span := between fileIndex place place

/-- How many code points the stretch covers. -/
def length (s : Span) : Nat := s.stop - s.start

def isEmpty (s : Span) : Bool := s.start == s.stop

/-- Whether the code point after `offset` others is covered. -/
def contains (s : Span) (offset : Nat) : Bool := s.start ≤ offset && offset < s.stop

end Span

end AttrGrammar.Text

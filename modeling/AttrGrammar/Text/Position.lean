/-! Places in a text. Offsets count code points; lines and columns count from one, and only a line
feed begins a new line. -/

namespace AttrGrammar.Text

/-- A place in a text: its line and column, and the number of code points before it. -/
structure Position where
  line : Nat
  column : Nat
  offset : Nat
  deriving DecidableEq, Inhabited

namespace Position

def start : Position := ⟨1, 1, 0⟩

/-- The place after one more code point. -/
def advanced (p : Position) (c : Char) : Position :=
  if c = '\n' then ⟨p.line + 1, 1, p.offset + 1⟩ else ⟨p.line, p.column + 1, p.offset + 1⟩

/-- The place after the given code points, counted from the start of the text. -/
def after (text : List Char) : Position := text.foldl advanced start

instance : ToString Position := ⟨fun p => s!"{p.line}:{p.column}"⟩

@[simp]
theorem offset_advanced (p : Position) (c : Char) : (p.advanced c).offset = p.offset + 1 := by
  unfold advanced; split <;> rfl

end Position

end AttrGrammar.Text

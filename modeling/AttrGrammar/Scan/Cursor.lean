import AttrGrammar.Text.Slice
import AttrGrammar.Text.Position

/-! A cursor walks over a text. Besides the place where it stands it keeps the farthest place it
ever reached: going back rewinds the former but never the latter, which is what a report of where a
parse stopped points at. The text is not part of the cursor, so every operation that reads takes it.
-/

namespace AttrGrammar.Scan
open Text

/-- The place where a cursor stands, and the farthest one it has reached. -/
structure Cursor where
  position : Position
  farthest : Position
  deriving DecidableEq, Inhabited

/-- Whether `word` stands in the text from the given offset on. -/
def standsAt (text : Buffer) : Nat → List Char → Bool
  | _, [] => true
  | offset, c :: word => text[offset]? == some c && standsAt text (offset + 1) word

theorem standsAt_iff (text : Buffer) (offset : Nat) (word : List Char) :
    standsAt text offset word ↔ word <+: text.toList.drop offset := by
  induction word generalizing offset with
  | nil => simp [standsAt]
  | cons c word ih =>
      by_cases h : offset < text.size
      · have hdrop : text.toList.drop offset = text[offset] :: text.toList.drop (offset + 1) := by
          rw [List.drop_eq_getElem_cons (by simpa using h), Array.getElem_toList]
        rw [hdrop, List.cons_prefix_cons, ← ih]
        simp only [standsAt, Array.getElem?_eq_getElem h, Bool.and_eq_true, beq_iff_eq,
          Option.some.injEq]
        exact and_congr_left fun _ => eq_comm
      · have hdrop : text.toList.drop offset = [] := List.drop_eq_nil_of_le (by simpa using h)
        simp [standsAt, hdrop, h]

/-- Where a word stands, the text has room for it. -/
theorem length_le_of_standsAt {text : Buffer} {offset : Nat} {word : List Char}
    (h : standsAt text offset word) : word.length ≤ text.size - offset := by
  have hle := ((standsAt_iff text offset word).1 h).length_le
  have hsize : text.toList.length = text.size := Array.length_toList
  rwa [List.length_drop, hsize] at hle

namespace Cursor

def start : Cursor := ⟨Position.start, Position.start⟩

def offset (c : Cursor) : Nat := c.position.offset

def atEnd (text : Buffer) (c : Cursor) : Bool := text.size ≤ c.offset

/-- The code point `n` places ahead. -/
def peekAhead? (text : Buffer) (c : Cursor) (n : Nat) : Option Char := text[c.offset + n]?

def peek? (text : Buffer) (c : Cursor) : Option Char := text[c.offset]?

def startsWith (text : Buffer) (c : Cursor) (word : List Char) : Bool := standsAt text c.offset word

/-- Moves to a place; a place beyond all others becomes the farthest. -/
def moveTo (c : Cursor) (place : Position) : Cursor :=
  ⟨place, if c.farthest.offset < place.offset then place else c.farthest⟩

/-- Moves past the next code point, or stays where the text ends. -/
def advance (text : Buffer) (c : Cursor) : Cursor :=
  match c.peek? text with
  | some ch => c.moveTo (c.position.advanced ch)
  | none => c

/-- Moves past up to `n` code points. -/
def advanceBy (text : Buffer) : Nat → Cursor → Cursor
  | 0, c => c
  | n + 1, c => if c.atEnd text then c else advanceBy text n (c.advance text)

/-- Goes back to a place, keeping the farthest one. -/
def restore (c : Cursor) (place : Position) : Cursor := { c with position := place }

@[simp]
theorem position_restore (c : Cursor) (place : Position) : (c.restore place).position = place :=
  rfl

@[simp]
theorem offset_moveTo (c : Cursor) (place : Position) : (c.moveTo place).offset = place.offset :=
  rfl

theorem offset_advance {text : Buffer} {c : Cursor} (h : c.offset < text.size) :
    (c.advance text).offset = c.offset + 1 := by
  have hpeek : c.peek? text = some text[c.offset] := by simp [peek?, h]
  simp only [advance, hpeek, offset_moveTo, Position.offset_advanced]
  rfl

theorem offset_advanceBy (text : Buffer) (n : Nat) (c : Cursor) :
    (c.advanceBy text n).offset = c.offset + min n (text.size - c.offset) := by
  induction n generalizing c with
  | zero => simp [advanceBy]
  | succ n ih =>
      rw [advanceBy]
      split
      · next h =>
        have : text.size ≤ c.offset := by simpa [atEnd] using h
        omega
      · next h =>
        have hlt : c.offset < text.size := by simpa [atEnd] using h
        rw [ih, offset_advance hlt]
        omega

/-- Moving past a word that stands here. -/
theorem offset_advanceBy_word {text : Buffer} {c : Cursor} {word : List Char}
    (h : c.startsWith text word) :
    (c.advanceBy text word.length).offset = c.offset + word.length := by
  have := length_le_of_standsAt h
  rw [offset_advanceBy]
  omega

/-- Moves past code points as long as they satisfy a test. -/
def advanceWhile (text : Buffer) (test : Char → Bool) (c : Cursor) : Cursor :=
  if h : c.offset < text.size then
    if test text[c.offset] then advanceWhile text test (c.advance text) else c
  else c
  termination_by text.size - c.offset
  decreasing_by rw [offset_advance h]; omega

end Cursor

end AttrGrammar.Scan

/-! Views of a buffer of code points. A slice shares its buffer, so it costs nothing to hand on, and
two slices are equal in content when their code points are, wherever they lie. -/

namespace AttrGrammar.Text

/-- A text as a sequence of code points with constant-time access. -/
abbrev Buffer := Array Char

def Buffer.ofString (s : String) : Buffer := s.toList.toArray

/-- The code points of `buffer` from offset `start` up to but excluding offset `stop`. -/
structure Slice where
  buffer : Buffer
  start : Nat
  stop : Nat
  start_le : start ≤ stop
  stop_le : stop ≤ buffer.size

/-- The part of a buffer between two offsets; an offset beyond the end counts as the end, and a
start beyond the stop gives the empty part at the stop. -/
def Buffer.slice (buffer : Buffer) (start stop : Nat) : Slice :=
  ⟨buffer, min start (min stop buffer.size), min stop buffer.size, Nat.min_le_right ..,
    Nat.min_le_right ..⟩

namespace Slice

def toArray (s : Slice) : Array Char := s.buffer.extract s.start s.stop

def toList (s : Slice) : List Char := s.toArray.toList

def length (s : Slice) : Nat := s.stop - s.start

def isEmpty (s : Slice) : Bool := s.length == 0

/-- Up to `n` code points from the front, without looking at the others. -/
def firstChars (s : Slice) (n : Nat) : List Char :=
  (s.buffer.extract s.start (min s.stop (s.start + n))).toList

/-- The first code point of a slice, unless it is empty. -/
def first? (s : Slice) : Option Char := if s.isEmpty then none else s.buffer[s.start]?

instance : ToString Slice := ⟨fun s => String.ofList s.toList⟩

/-- Slices are compared by content. -/
instance : BEq Slice := ⟨fun a b => a.toArray == b.toArray⟩

@[simp]
theorem length_toList (s : Slice) : s.toList.length = s.length := by
  have := s.stop_le
  simp [toList, toArray, length]
  omega

theorem toList_slice {buffer : Buffer} {start n : Nat} (h : start + n ≤ buffer.size) :
    (buffer.slice start (start + n)).toList = (buffer.toList.drop start).take n := by
  have hstop : min (start + n) buffer.size = start + n := Nat.min_eq_left h
  have hstart : min start (start + n) = start := Nat.min_eq_left (Nat.le_add_right start n)
  simp only [toList, toArray, Buffer.slice, hstop, hstart, Array.toList_extract, List.extract_eq_take_drop,
    Nat.add_sub_cancel_left]

theorem firstChars_eq_take (s : Slice) (n : Nat) : s.firstChars n = s.toList.take n := by
  simp [firstChars, toList, toArray, List.take_take, Nat.min_def]
  grind

end Slice

end AttrGrammar.Text

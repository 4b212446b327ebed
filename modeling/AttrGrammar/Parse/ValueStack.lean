/-! The stack on which activations hand values to each other: a caller pushes arguments for the rule
it calls, and a rule that returns a value pushes it for its caller. -/

namespace AttrGrammar.Parse

/-- Values, the last one pushed in front. -/
structure ValueStack (V : Type) where
  values : List V

namespace ValueStack

variable {V : Type}

def empty : ValueStack V := ⟨[]⟩

def push (s : ValueStack V) (v : V) : ValueStack V := ⟨v :: s.values⟩

def pop? (s : ValueStack V) : Option V × ValueStack V := (s.values.head?, ⟨s.values.tail⟩)

def peek? (s : ValueStack V) : Option V := s.values.head?

def size (s : ValueStack V) : Nat := s.values.length

def isEmpty (s : ValueStack V) : Bool := s.values.isEmpty

/-- Drops every value above the first `size` ones. -/
def truncate (s : ValueStack V) (size : Nat) : ValueStack V := ⟨s.values.drop (s.size - size)⟩

/-- The values from the bottom to the top. -/
def toList (s : ValueStack V) : List V := s.values.reverse

@[simp]
theorem toList_push (s : ValueStack V) (v : V) : (s.push v).toList = s.toList ++ [v] := by
  simp [toList, push]

@[simp]
theorem toList_truncate (s : ValueStack V) (size : Nat) :
    (s.truncate size).toList = s.toList.take size := by
  simp only [toList, truncate, ValueStack.size, List.reverse_drop]
  rcases Nat.le_total size s.values.length with h | h
  · rw [Nat.sub_sub_self h]
  · rw [List.take_of_length_le (by simp; omega), List.take_of_length_le (by simp; omega)]

end ValueStack

end AttrGrammar.Parse

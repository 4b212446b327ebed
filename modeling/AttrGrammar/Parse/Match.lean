import AttrGrammar.Text.Record

/-! The outcome of trying a parser at a place: it misses, or it hits a stretch of some length. -/

namespace AttrGrammar.Parse
open Text

inductive Match where
  | miss
  | hit (length : Nat)
  deriving DecidableEq

namespace Match

def isHit : Match → Bool
  | miss => false
  | hit _ => true

/-- How much was matched; nothing on a miss. -/
def length : Match → Nat
  | miss => 0
  | hit n => n

@[simp]
theorem isHit_miss : miss.isHit = false := rfl

@[simp]
theorem isHit_hit (n : Nat) : (hit n).isHit = true := rfl

@[simp]
theorem length_miss : miss.length = 0 := rfl

@[simp]
theorem length_hit (n : Nat) : (hit n).length = n := rfl

/-- One match after the other, which hits if both do. -/
def concatenate : Match → Match → Match
  | hit m, hit n => hit (m + n)
  | _, _ => miss

instance : Describe Match where
  describe m := recordText "Match" [("hit", toString m.isHit), ("length", describe m.length)]

end Match

end AttrGrammar.Parse

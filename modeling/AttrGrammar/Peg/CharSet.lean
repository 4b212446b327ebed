/-! Sets of characters written as set expressions such as `a-zA-Z_`. Two characters with a dash
between them denote all from one to the other; a dash at either end stands for itself, and so does
whatever follows a backslash, save that `\n`, `\r`, `\t` and `\0` stand for the usual controls. -/

namespace AttrGrammar.Peg

/-- A character of a set expression, and whether a backslash protected it. -/
structure SetUnit where
  char : Char
  isEscaped : Bool
  deriving DecidableEq

/-- What a backslash makes of the character after it. -/
def unescapedChar : Char → Char
  | 'n' => '\n'
  | 'r' => '\r'
  | 't' => '\t'
  | '0' => '\x00'
  | c => c

/-- The characters of a set expression. A backslash that nothing follows stands for itself. -/
def setUnits : List Char → List SetUnit
  | [] => []
  | ['\\'] => [⟨'\\', true⟩]
  | '\\' :: c :: rest => ⟨unescapedChar c, true⟩ :: setUnits rest
  | c :: rest => ⟨c, false⟩ :: setUnits rest

/-- The range between two characters, from the lower one to the upper one. -/
def rangeBetween (a b : Char) : Char × Char := if a ≤ b then (a, b) else (b, a)

/-- The ranges that a set expression denotes, each from its lower to its upper end. -/
def unitRanges : List SetUnit → List (Char × Char)
  | [] => []
  | first :: ⟨'-', false⟩ :: last :: rest =>
    rangeBetween first.char last.char :: unitRanges rest
  | unit :: rest => (unit.char, unit.char) :: unitRanges rest

/-- A set of characters: those in one of the ranges, or all others. -/
structure CharSet where
  source : String
  ranges : List (Char × Char)
  isInverse : Bool
  deriving DecidableEq

namespace CharSet

/-- The set that an expression denotes, or its complement. -/
def ofSource (source : String) (isInverse : Bool) : CharSet :=
  ⟨source, unitRanges (setUnits source.toList), isInverse⟩

def new (source : String) : CharSet := ofSource source false

def inverse (source : String) : CharSet := ofSource source true

def contains (set : CharSet) (c : Char) : Bool :=
  (set.ranges.any fun r => r.1 ≤ c && c ≤ r.2) != set.isInverse

instance : ToString CharSet :=
  ⟨fun set => (if set.isInverse then "[^" else "[") ++ set.source ++ "]"⟩

end CharSet

end AttrGrammar.Peg

import AttrGrammar.Text.CodeRange

/-! The White_Space property of Unicode 17: the blanks that separate words. -/

namespace AttrGrammar.Text

/-- The code points with the White_Space property, in ascending order. -/
def whiteSpaceRanges : List CodeRange :=
  [(0x9, 0xD), (0x20, 0x20), (0x85, 0x85), (0xA0, 0xA0), (0x1680, 0x1680), (0x2000, 0x200A),
   (0x2028, 0x2029), (0x202F, 0x202F), (0x205F, 0x205F), (0x3000, 0x3000)]

/-- Whether a character has the White_Space property. -/
def isWhiteSpace (c : Char) : Bool := inRanges whiteSpaceRanges c.toNat

end AttrGrammar.Text

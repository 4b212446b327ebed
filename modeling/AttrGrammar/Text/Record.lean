import AttrGrammar.Text.Escape

/-! Record notation: one line that shows a value with all its parts. Records name their fields,
variants wrap their payload in parentheses, lists stand in brackets and maps in braces. -/

namespace AttrGrammar.Text

/-- Types whose values have a text in record notation. -/
class Describe (α : Type u) where
  describe : α → String

export Describe (describe)

/-- A record with the texts of its fields. -/
def recordText (name : String) (fields : List (String × String)) : String :=
  name ++ " \x7b " ++ ", ".intercalate (fields.map fun f => f.1 ++ ": " ++ f.2) ++ " \x7d"

/-- A variant around the text of its payload. -/
def variantText (name payload : String) : String := name ++ "(" ++ payload ++ ")"

/-- A map, each key with its value. -/
def mapText (entries : List (String × String)) : String :=
  "\x7b" ++ ", ".intercalate (entries.map fun e => e.1 ++ ": " ++ e.2) ++ "\x7d"

instance : Describe Nat := ⟨toString⟩

instance : Describe String := ⟨doubleQuoted⟩

instance [Describe α] : Describe (List α) :=
  ⟨fun xs => "[" ++ ", ".intercalate (xs.map describe) ++ "]"⟩

instance [Describe α] : Describe (Option α) :=
  ⟨fun | none => "None" | some a => variantText "Some" (describe a)⟩

instance [Describe α] [Describe β] : Describe (α × β) :=
  ⟨fun p => "(" ++ describe p.1 ++ ", " ++ describe p.2 ++ ")"⟩

end AttrGrammar.Text

import AttrGrammar.Text.GraphemeExtend
import AttrGrammar.Text.Unprintable

/-! The written form of characters and texts inside quotes. Whatever would not show as itself is
written as a backslash sequence: the common controls and the quotes by name, a mark that would
attach to its neighbour and a character without a visible form by its number. -/

namespace AttrGrammar.Text

/-- A code point by its hexadecimal number. -/
def numbered (c : Char) : String :=
  "\\u\x7b" ++ String.ofList (Nat.toDigits 16 c.toNat) ++ "\x7d"

/-- The written form of a character between quotes of either kind. -/
def escapedChar (c : Char) : String :=
  match c with
  | '\x00' => "\\0"
  | '\t' => "\\t"
  | '\r' => "\\r"
  | '\n' => "\\n"
  | '\\' => "\\\\"
  | '\x27' => "\\'"
  | '"' => "\\\""
  | _ => if isAttachedMark c || isUnprintable c then numbered c else c.toString

/-- A text between quotes of the given kind, with every quote in it escaped. -/
def quotedWith (quote : Char) (text : String) : String :=
  quote.toString ++ String.join (text.toList.map escapedChar) ++ quote.toString

/-- A text between double quotes, in which a single quote stands for itself. -/
def doubleQuoted (text : String) : String :=
  "\"" ++ String.join (text.toList.map fun c => if c = '\x27' then "'" else escapedChar c) ++ "\""

end AttrGrammar.Text

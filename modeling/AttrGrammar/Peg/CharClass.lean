import AttrGrammar.Text.Alphabetic
import AttrGrammar.Text.Numeric
import AttrGrammar.Text.WhiteSpace

/-! The named classes of single characters. Letters, blanks and identifiers follow Unicode; digits
and punctuation are those of ASCII. -/

namespace AttrGrammar.Peg
open Text

inductive CharClass where
  | space
  | letter
  | digit
  | hexDigit
  | punctuation
  | idStart
  | idCont
  deriving DecidableEq

/-- Characters that go on with an identifier. -/
def isIdCont (c : Char) : Bool := isAlphabetic c || isNumeric c || c == '_'

/-- Characters that begin an identifier. -/
def isIdStart (c : Char) : Bool := isAlphabetic c || c == '_'

/-- The visible characters of ASCII that are neither letters nor digits. -/
def isPunctuation (c : Char) : Bool := '!' ≤ c && c ≤ '~' && !c.isAlphanum

def isHexDigit (c : Char) : Bool := c.isDigit || ('a' ≤ c && c ≤ 'f') || ('A' ≤ c && c ≤ 'F')

namespace CharClass

def admits (cls : CharClass) (c : Char) : Bool :=
  match cls with
  | space => isWhiteSpace c
  | letter => isAlphabetic c
  | digit => c.isDigit
  | hexDigit => isHexDigit c
  | punctuation => isPunctuation c
  | idStart => isIdStart c
  | idCont => isIdCont c

def name : CharClass → String
  | space => "space"
  | letter => "letter"
  | digit => "digit"
  | hexDigit => "hexdigit"
  | punctuation => "punctuation"
  | idStart => "idstart"
  | idCont => "idcont"

def all : List CharClass := [space, letter, digit, hexDigit, punctuation, idStart, idCont]

def ofName? (name : String) : Option CharClass := all.find? (·.name == name)

end CharClass

end AttrGrammar.Peg

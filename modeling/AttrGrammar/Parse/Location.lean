import AttrGrammar.Text.Record
import AttrGrammar.Text.Slice
import AttrGrammar.Text.Span

/-! Where an error lies, with the text it lies in. Line and column can be told from the span and the
text alone, and an excerpt shows the source line with a caret below the place. -/

namespace AttrGrammar.Parse
open Text

/-- A stretch of a named file together with the text of the file. -/
structure Location where
  fileName : String
  span : Span
  text : Buffer

namespace Location

/-- Where the stretch starts; a start beyond the text counts as its end. -/
def startOffset (l : Location) : Nat := min l.span.start l.text.size

/-- The text before the start, its last code point first. -/
def before (l : Location) : List Char := (l.text.extract 0 l.startOffset).toList.reverse

/-- How many code points lie between the last line feed before the start and the start. -/
def indentation (l : Location) : Nat := (l.before.takeWhile (· != '\n')).length

def line (l : Location) : Nat := l.span.startLine

def column (l : Location) : Nat := l.indentation + 1

/-- The text from the start of the line up to the next line feed or carriage return. -/
def sourceLine (l : Location) : List Char :=
  (l.text.extract (l.startOffset - l.indentation) l.text.size).toList.takeWhile
    fun c => c != '\n' && c != '\r'

/-- Blanks as wide as the text before the column: a tab for a tab, a space for all else. -/
def padding (l : Location) : List Char :=
  (l.sourceLine.take (l.column - 1)).map fun c => if c = '\t' then '\t' else ' '

/-- The source line, and below it a caret under the column. -/
def excerpt (l : Location) : String :=
  String.ofList l.sourceLine ++ "\n" ++ String.ofList l.padding ++ "^"

instance : ToString Location := ⟨fun l => s!"{l.fileName}:{l.line}:{l.column}"⟩

/-- The place with its excerpt. -/
def render (l : Location) : String := s!"{l}\n{l.excerpt}"

instance : Describe Span where
  describe s := recordText "Span"
    [("file_index", describe s.fileIndex), ("start", describe s.start), ("end", describe s.stop),
     ("start_line", describe s.startLine), ("end_line", describe s.stopLine)]

instance : Describe Location where
  describe l := recordText "SourceLocation"
    [("file_name", describe l.fileName), ("span", describe l.span)]

end Location

end AttrGrammar.Parse

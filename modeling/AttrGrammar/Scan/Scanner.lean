import AttrGrammar.Scan.Cursor
import AttrGrammar.Scan.TraceLog
import AttrGrammar.Text.Span

/-! What a parse knows about its input. The source is fixed for the whole parse; the scanner is the
part that changes: the cursor, the two conditions under which no skipping happens, and the trace. -/

namespace AttrGrammar.Scan
open Text

/-- One file: its code points, its name, and its number in the caller's list of files. -/
structure Source where
  text : Buffer
  fileIndex : Nat
  fileName : String

/-- The text between two places. -/
def Source.textBetween (source : Source) (first last : Position) : Slice :=
  source.text.slice first.offset last.offset

def Source.textFrom (source : Source) (first : Position) : Slice :=
  source.text.slice first.offset source.text.size

def Source.span (source : Source) (first last : Position) : Span :=
  .between source.fileIndex first last

/-- The changing state of reading a source. `skipping` holds while the skip rule itself runs, and
`tokenDepth` counts the token groups that are open. -/
structure Scanner where
  cursor : Cursor
  skipping : Bool
  tokenDepth : Nat
  log : Option TraceLog

namespace Scanner

/-- A scanner before the first code point, writing the given trace. -/
def start (log : Option TraceLog) : Scanner := ⟨Cursor.start, false, 0, log⟩

def position (s : Scanner) : Position := s.cursor.position

def offset (s : Scanner) : Nat := s.cursor.offset

def inToken (s : Scanner) : Bool := 0 < s.tokenDepth

/-- What of the skip rule applies here: nothing while it runs or inside a token group. -/
def activeSkip (s : Scanner) (skipRule : Option α) : Option α :=
  if s.skipping || s.inToken then none else skipRule

theorem activeSkip_eq_some {s : Scanner} {skipRule : Option α} {a : α} :
    s.activeSkip skipRule = some a ↔
      s.skipping = false ∧ s.tokenDepth = 0 ∧ skipRule = some a := by
  cases h : s.skipping <;> simp [activeSkip, inToken, h]

def beginSkip (s : Scanner) : Scanner := { s with skipping := true }

def endSkip (s : Scanner) : Scanner := { s with skipping := false }

def beginToken (s : Scanner) : Scanner := { s with tokenDepth := s.tokenDepth + 1 }

def endToken (s : Scanner) : Scanner := { s with tokenDepth := s.tokenDepth - 1 }

def mapCursor (f : Cursor → Cursor) (s : Scanner) : Scanner := { s with cursor := f s.cursor }

@[simp]
theorem cursor_mapCursor (f : Cursor → Cursor) (s : Scanner) :
    (s.mapCursor f).cursor = f s.cursor := rfl

@[simp]
theorem skipping_mapCursor (f : Cursor → Cursor) (s : Scanner) :
    (s.mapCursor f).skipping = s.skipping := rfl

@[simp]
theorem tokenDepth_mapCursor (f : Cursor → Cursor) (s : Scanner) :
    (s.mapCursor f).tokenDepth = s.tokenDepth := rfl

@[simp]
theorem position_restore (s : Scanner) (p : Position) :
    (s.mapCursor (·.restore p)).position = p := rfl

@[simp]
theorem offset_restore (s : Scanner) (p : Position) :
    (s.mapCursor (·.restore p)).offset = p.offset := rfl

@[simp]
theorem offset_position (s : Scanner) : s.position.offset = s.offset := rfl

/-- The stretch from an earlier place up to here. -/
def spanFrom (s : Scanner) (source : Source) (first : Position) : Span :=
  source.span first s.position

/-- The empty stretch at the present place. -/
def currentSpan (s : Scanner) (source : Source) : Span := source.span s.position s.position

/-- The empty stretch at the farthest place reached so far. -/
def farthestSpan (s : Scanner) (source : Source) : Span :=
  source.span s.cursor.farthest s.cursor.farthest

def textFrom (s : Scanner) (source : Source) (first : Position) : Slice :=
  source.textBetween first s.position

end Scanner

end AttrGrammar.Scan

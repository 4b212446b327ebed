import AttrGrammar.Proofs.XmlWords

/-! Documents as they are written, with all that may differ between two spellings of the same thing:
references by name or by number, quotes of either kind, blanks wherever they may stand, elements
without content as one tag, sections, comments and instructions. Such a document is well-formed but
for the numbers in its references, which may be those of no character. Three things are told of it:
its characters, the events that describe it, and the references in it.

Between two pieces there is always one run of characters, which may be empty; so a document is given
in one way only, and no two runs stand next to each other. -/

namespace AttrGrammar.Xml
open Text Peg

/-- Characters of a kind. -/
structure Run (accept : Char → Bool) where
  chars : List Char
  valid : ∀ c ∈ chars, accept c

namespace Run

variable {accept : Char → Bool}

def nil : Run accept := ⟨[], List.forall_mem_nil _⟩

def cons (c : Char) (h : accept c) (run : Run accept) : Run accept :=
  ⟨c :: run.chars, List.forall_mem_cons.2 ⟨h, run.valid⟩⟩

def append (front back : Run accept) : Run accept :=
  ⟨front.chars ++ back.chars, List.forall_mem_append.2 ⟨front.valid, back.valid⟩⟩

end Run

/-- At least one character, and all of a kind. -/
structure SomeRun (accept : Char → Bool) extends Run accept where
  nonempty : chars ≠ []

/-- A text does not begin with characters of a kind if it begins with a run of other characters, and
does not do so behind it either. -/
theorem Run.ends {accept accept' : Char → Bool} (run : Run accept)
    (h : ∀ c, accept c = true → accept' c = false) {rest : List Char}
    (hrest : Reader.Ends accept' rest) : Reader.Ends accept' (run.chars ++ rest) := by
  obtain ⟨chars, valid⟩ := run
  cases chars with
  | nil => exact hrest
  | cons c chars => exact Reader.ends_cons (h c (valid c List.mem_cons_self))

theorem SomeRun.ends {accept accept' : Char → Bool} (run : SomeRun accept)
    (h : ∀ c, accept c = true → accept' c = false) (rest : List Char) :
    Reader.Ends accept' (run.chars ++ rest) := by
  obtain ⟨c, chars, hchars⟩ := List.exists_cons_of_ne_nil run.nonempty
  rw [hchars]
  exact Reader.ends_cons (h c (run.valid c (by rw [hchars]; exact List.mem_cons_self)))

/-- Pieces with runs of characters around them. -/
inductive Interspersed (accept : Char → Bool) (α : Type) where
  | last (run : Run accept)
  | more (run : Run accept) (piece : α) (rest : Interspersed accept α)

/-- What is made of the runs and the pieces, in their order. -/
def Interspersed.flatMap {accept : Char → Bool} {α β : Type} (ofRun : List Char → List β)
    (ofPiece : α → List β) : Interspersed accept α → List β
  | last run => ofRun run.chars
  | more run piece rest => ofRun run.chars ++ (ofPiece piece ++ rest.flatMap ofRun ofPiece)

/-! ### References -/

/-- How the digits of a number are read. -/
inductive Radix where
  | decimal
  | hexadecimal

namespace Radix

def base : Radix → Nat
  | decimal => 10
  | hexadecimal => 16

def isDigit : Radix → Char → Bool
  | decimal => Char.isDigit
  | hexadecimal => isHexDigit

/-- What stands before the digits. -/
def mark : Radix → List Char
  | decimal => ['#']
  | hexadecimal => ['#', 'x']

end Radix

/-- A reference to a character, by a name that is known or by a number. -/
inductive Reference where
  | entity (name : Name) (character : Char) (h : entities.lookup name.text = some character)
  | number (radix : Radix) (digits : SomeRun radix.isDigit)

namespace Reference

def write : Reference → List Char
  | entity name _ _ => '&' :: (name.text.toList ++ [';'])
  | number radix digits => '&' :: (radix.mark ++ (digits.chars ++ [';']))

/-- The digits of a reference by number. -/
def digits : Reference → List Char
  | entity .. => []
  | number _ digits => digits.chars

/-- The number of what a reference refers to. -/
def codePoint : Reference → Nat
  | entity _ character _ => character.toNat
  | number radix digits => Nat.ofDigits radix.base (digits.chars.reverse.map digitValue)

/-- The number is that of a character. -/
def IsValid (r : Reference) : Prop := r.codePoint.isValidChar

instance (r : Reference) : Decidable r.IsValid := inferInstanceAs (Decidable (Nat.isValidChar _))

/-- The character that a valid reference stands for. -/
def character (r : Reference) : Char := .ofNat r.codePoint

end Reference

/-! ### Tags -/

inductive Quote where
  | double
  | single

namespace Quote

def mark : Quote → Char
  | double => '"'
  | single => '\x27'

/-- Between the quotes a character stands for itself. -/
def isPlain (quote : Quote) (c : Char) : Bool := Xml.isPlain false c && c != quote.mark

end Quote

structure AttributeValue where
  quote : Quote
  pieces : Interspersed quote.isPlain Reference

namespace AttributeValue

def write (v : AttributeValue) : List Char :=
  v.quote.mark :: (v.pieces.flatMap id Reference.write ++ [v.quote.mark])

/-- The value, in which every reference is the character that it stands for. -/
def text (v : AttributeValue) : List Char := v.pieces.flatMap id fun r => [r.character]

def references (v : AttributeValue) : List Reference := v.pieces.flatMap (fun _ => []) fun r => [r]

end AttributeValue

/-- An attribute and the blanks in front of it and around its sign of equality. -/
structure Attribute where
  gap : SomeRun isBlank
  name : Name
  before : Run isBlank
  behind : Run isBlank
  value : AttributeValue

namespace Attribute

/-- The attribute without the blanks in front of it. -/
def body (a : Attribute) : List Char :=
  a.name.text.toList ++ (a.before.chars ++ '=' :: (a.behind.chars ++ a.value.write))

def write (a : Attribute) : List Char := a.gap.chars ++ a.body

def event (a : Attribute) : Event := .attr a.name.text (.ofList a.value.text)

end Attribute

/-- The tag that an element begins with, but for its end. -/
structure Tag where
  name : Name
  attributes : List Attribute
  blanks : Run isBlank

namespace Tag

def write (t : Tag) : List Char :=
  '<' :: (t.name.text.toList ++ (t.attributes.flatMap Attribute.write ++ t.blanks.chars))

/-- The events of the tag, but for its end. -/
def events (t : Tag) : List Event :=
  .beginStartTag t.name.text :: t.attributes.map Attribute.event

def references (t : Tag) : List Reference := t.attributes.flatMap fun a => a.value.references

/-- An element that consists of this tag. -/
def writeEmpty (t : Tag) : List Char := t.write ++ ['/', '>']

/-- An element with its content between this tag and the end tag. -/
def writeElement (t : Tag) (content : List Char) (blanks : Run isBlank) : List Char :=
  t.write ++ '>' :: (content ++ '<' :: '/' :: (t.name.text.toList ++ (blanks.chars ++ ['>'])))

theorem length_writeElement (t : Tag) (content : List Char) (blanks : Run isBlank) :
    content.length + 4 ≤ (t.writeElement content blanks).length := by
  simp only [writeElement, write, List.length_append, List.length_cons]
  omega

/-- The events of an element, given those of its content. -/
def elementEvents (t : Tag) (content : List Event) : List Event :=
  t.events ++ .endStartTag :: (content ++ [.endTag t.name.text])

end Tag

/-! ### Content -/

/-- The data of an instruction have to be parted from its target. -/
structure Instruction where
  target : Name
  data : Option (SomeRun isBlank × InstructionData)

namespace Instruction

/-- What stands behind the target. -/
def behind (i : Instruction) : List Char :=
  match i.data with
  | none => []
  | some (gap, data) => gap.chars ++ data.text.toList

def write (i : Instruction) : List Char :=
  ['<', '?'] ++ (i.target.text.toList ++ (i.behind ++ ['?', '>']))

def event (i : Instruction) : Event :=
  .processingInstruction i.target.text ((i.data.map (·.2.text)).getD "")

end Instruction

/-- What may stand outside the outermost element as well as inside. -/
inductive Misc where
  | comment (t : CommentText)
  | instruction (i : Instruction)

namespace Misc

def write : Misc → List Char
  | comment t => ['<', '!', '-', '-'] ++ (t.text.toList ++ ['-', '-', '>'])
  | instruction i => i.write

def event : Misc → Event
  | comment t => .comment t.text
  | instruction i => i.event

theorem length_write_pos (m : Misc) : 0 < m.write.length := by
  cases m <;> simp [write, Instruction.write]

end Misc

/-- What a section can hold, in which no character begins markup. -/
structure SectionText where
  text : String
  valid : ¬ [']', ']', '>'] <:+: text.toList

/-- A piece of content without any content of its own. -/
inductive Piece where
  | reference (r : Reference)
  | empty (tag : Tag)
  | charSection (t : SectionText)
  | misc (m : Misc)

namespace Piece

def write : Piece → List Char
  | reference r => r.write
  | empty tag => tag.writeEmpty
  | charSection t => ['<', '!', '[', 'C', 'D', 'A', 'T', 'A', '['] ++ (t.text.toList ++ [']', ']', '>'])
  | misc m => m.write

def events : Piece → List Event
  | reference r => [.text r.character.toString]
  | empty tag => tag.elementEvents []
  | charSection t => [.text t.text]
  | misc m => [m.event]

def references : Piece → List Reference
  | reference r => [r]
  | empty tag => tag.references
  | _ => []

end Piece

/-- The content of an element: pieces and whole elements among runs of characters. -/
inductive Content where
  | last (run : Run (isPlain false))
  | piece (run : Run (isPlain false)) (p : Piece) (rest : Content)
  | element (run : Run (isPlain false)) (tag : Tag) (inner : Content) (blanks : Run isBlank)
      (rest : Content)

/-- A run of characters is one text, unless it is empty. -/
def runEvents (chars : List Char) : List Event :=
  if chars = [] then [] else [.text (.ofList chars)]

namespace Content

def write : Content → List Char
  | last run => run.chars
  | piece run p rest => run.chars ++ (p.write ++ rest.write)
  | element run tag inner blanks rest =>
    run.chars ++ (tag.writeElement inner.write blanks ++ rest.write)

def events : Content → List Event
  | last run => runEvents run.chars
  | piece run p rest => runEvents run.chars ++ (p.events ++ rest.events)
  | element run tag inner _ rest =>
    runEvents run.chars ++ (tag.elementEvents inner.events ++ rest.events)

def references : Content → List Reference
  | last _ => []
  | piece _ p rest => p.references ++ rest.references
  | element _ tag inner _ rest => (tag.references ++ inner.references) ++ rest.references

end Content

/-- The outermost element. -/
inductive Root where
  | empty (tag : Tag)
  | element (tag : Tag) (content : Content) (blanks : Run isBlank)

namespace Root

def write : Root → List Char
  | empty tag => tag.writeEmpty
  | element tag content blanks => tag.writeElement content.write blanks

def events : Root → List Event
  | empty tag => tag.elementEvents []
  | element tag content _ => tag.elementEvents content.events

def references : Root → List Reference
  | empty tag => tag.references
  | element tag content _ => tag.references ++ content.references

end Root

structure Document where
  before : Interspersed isBlank Misc
  root : Root
  after : Interspersed isBlank Misc

/-- The events of what stands before or behind the outermost element. -/
def miscEvents (around : Interspersed isBlank Misc) : List Event :=
  around.flatMap (fun _ => []) fun m => [m.event]

namespace Document

def write (d : Document) : List Char :=
  d.before.flatMap id Misc.write ++ (d.root.write ++ d.after.flatMap id Misc.write)

def events (d : Document) : List Event :=
  .startDocument :: (miscEvents d.before ++ (d.root.events ++ (miscEvents d.after ++ [.endDocument])))

/-- The references in the document, in the order in which they stand there. -/
def references (d : Document) : List Reference := d.root.references

end Document

end AttrGrammar.Xml

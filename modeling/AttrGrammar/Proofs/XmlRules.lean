import AttrGrammar.Proofs.XmlReading

/-! What each rule of the grammar of documents reads, given what calling the others means. Nothing is
skipped between the parts of these rules, so their parts follow each other directly. -/

namespace AttrGrammar.Xml
open Text Peg
open Reader Context

variable {σ : Type}

/-- What calling the rules means. -/
abbrev Rules (σ : Type) := String → Callee Value (Receiver σ)

variable (call : Rules σ)

/-- Calls a rule that does not report events. -/
abbrev reading (rule : String) : Reader Value (Receiver σ) := .nonterminal (call rule) rule []

/-- Calls a rule that reports events. -/
abbrev reporting (rule : String) : Reader Value (Receiver σ) :=
  .nonterminal (call rule) rule [forward "processor"]

/-- One character, or the end of the parse. -/
abbrev requiredChar (c : Char) : Reader Value (Receiver σ) := expect (oneChar (· == c))

/-- What stands before a mark. -/
def untilMark (mark : String) : Reader Value (Receiver σ) :=
  star .nothing (difference (oneChar fun _ => true) (literal mark.toList))

def readDocument : Callee Value (Receiver σ) :=
  activation [] ["processor"] false <| action (emit [.endDocument]) <|
    (action (emit [.startDocument]) .nothing).seq <| (star .nothing (reporting call "Misc")).seq <|
    (expect (reporting call "Element")).seq <| star .nothing (reporting call "Misc")

def readMisc : Callee Value (Receiver σ) :=
  activation [] ["processor"] false <|
    ((reporting call "Comment").choice (reporting call "ProcessingInstruction")).choice
      (reading call "S")

/-- What follows the name of a start tag and its attributes. -/
def restOfElement : Reader Value (Receiver σ) :=
  (action closeEmpty (literal "/>".toList)).choice <|
    (action (emit [.endStartTag]) (oneChar (· == '>'))).seq <| (reporting call "Content").seq <|
    expect <| (literal "</".toList).seq <| (action closeElement (expect (reading call "Name"))).seq <|
      (optional (reading call "S")).seq <| requiredChar '>'

def readElement : Callee Value (Receiver σ) :=
  activation ["tag"] ["processor"] false <| (oneChar (· == '<')).seq <|
    (action beginElement (reading call "Name")).seq <|
    (star .nothing ((reading call "S").seq (reporting call "Attribute"))).seq <|
    (optional (reading call "S")).seq <| expect (restOfElement call)

def readAttribute : Callee Value (Receiver σ) :=
  activation [] ["processor"] false <| action emitAttribute <| (reading call "Name").seq <|
    (optional (reading call "S")).seq <| (requiredChar '=').seq <|
    (optional (reading call "S")).seq <| expect (reading call "AttributeValue")

/-- A value between quotes of one kind. -/
def readQuoted (quote : Char) : Reader Value (Receiver σ) :=
  (action (setText "") (oneChar (· == quote))).seq <|
    (star .nothing <|
      (action (fun ctx => appendText (matched ctx) ctx)
        (plus .nothing (oneChar (CharSet.inverse ("<&" ++ quote.toString)).contains))).choice
        (action appendReference (reading call "Reference"))).seq <|
    requiredChar quote

def readAttributeValue : Callee Value (Receiver σ) :=
  activation [] [] true <| (readQuoted call '"').choice (readQuoted call '\x27')

/-- A piece of the content of an element. -/
def contentPiece : Reader Value (Receiver σ) :=
  (((((reporting call "CharData").choice (reporting call "Element")).choice
    (action emitReference (reading call "Reference"))).choice
    (reporting call "CDataSection")).choice
    (reporting call "ProcessingInstruction")).choice (reporting call "Comment")

def readContent : Callee Value (Receiver σ) :=
  activation [] ["processor"] false <| star .nothing (contentPiece call)

def readCharData : Callee Value (Receiver σ) :=
  activation [] ["processor"] false <| action (emitMatched .text) <|
    plus .nothing (oneChar (CharSet.inverse "<&").contains)

def readReference : Callee Value (Receiver σ) :=
  activation [] [] true <| (oneChar (· == '&')).seq <|
    (expect <|
      (((literal "#x".toList).seq
        (action (readCharacter 16) (plus .nothing (oneChar CharClass.hexDigit.admits)))).choice
        ((oneChar (· == '#')).seq
          (action (readCharacter 10) (plus .nothing (oneChar CharClass.digit.admits))))).choice
        (action readEntity (reading call "Name"))).seq <|
    requiredChar ';'

def readCDataSection : Callee Value (Receiver σ) :=
  activation [] ["processor"] false <| (literal "<![CDATA[".toList).seq <|
    (action (emitMatched .text) (untilMark "]]>")).seq <| expect (literal "]]>".toList)

def readComment : Callee Value (Receiver σ) :=
  activation [] ["processor"] false <| (literal "<!--".toList).seq <|
    (action (emitMatched .comment) (untilMark "--")).seq <| expect (literal "-->".toList)

def readProcessingInstruction : Callee Value (Receiver σ) :=
  activation ["data"] ["processor"] false <| action emitInstruction <|
    (literal "<?".toList).seq <| (reading call "Name").seq <|
    (optional ((reading call "S").seq
      (action (fun ctx => setLocalText "data" (matched ctx) ctx) (untilMark "?>")))).seq <|
    expect (literal "?>".toList)

def readName : Callee Value (Receiver σ) :=
  activation [] [] true <| action (fun ctx => setText (matched ctx) ctx) <|
    ((oneChar CharClass.letter.admits).choice (oneChar (CharSet.new "_:").contains)).seq <|
    star .nothing <| ((oneChar CharClass.letter.admits).choice
      (oneChar CharClass.digit.admits)).choice (oneChar (CharSet.new "._:-").contains)

def readBlanks : Callee Value (Receiver σ) :=
  activation [] [] false <| plus .nothing (oneChar (CharSet.new " \t\r\n").contains)

/-- What a rule reads by its name. -/
def readRule : Rules σ
  | "Document" => readDocument call
  | "Misc" => readMisc call
  | "Element" => readElement call
  | "Attribute" => readAttribute call
  | "AttributeValue" => readAttributeValue call
  | "Content" => readContent call
  | "CharData" => readCharData
  | "Reference" => readReference call
  | "CDataSection" => readCDataSection
  | "Comment" => readComment
  | "ProcessingInstruction" => readProcessingInstruction call
  | "Name" => readName
  | "S" => readBlanks
  | _ => fun _ _ u => .stop .faulty u

theorem calleeOf_documentRules (call : Bool → Rules σ) (rule : String) :
    calleeOf documentRules none call true rule = readRule (call true) rule := by
  unfold readRule
  split
  case h_14 =>
    rw [calleeOf, List.find?_eq_none.2]
    simp only [documentRules, List.forall_mem_cons, List.not_mem_nil, beq_iff_eq]
    grind
  case h_1 => simp only [readDocument, ← Reader.seq_assoc]; rfl
  case h_3 => simp only [readElement, restOfElement, ← Reader.seq_assoc]; rfl
  case h_4 => simp only [readAttribute, ← Reader.seq_assoc]; rfl
  case h_5 => simp only [readAttributeValue, readQuoted, ← Reader.seq_assoc]; rfl
  case h_8 => simp only [readReference, ← Reader.seq_assoc]; rfl
  case h_9 => simp only [readCDataSection, ← Reader.seq_assoc]; rfl
  case h_10 => simp only [readComment, ← Reader.seq_assoc]; rfl
  case h_11 => simp only [readProcessingInstruction, ← Reader.seq_assoc]; rfl
  all_goals rfl

theorem reader_succ (levels : Nat) (rule : String) :
    (reader (levels + 1) rule : Callee Value (Receiver σ)) = readRule (reader levels) rule :=
  calleeOf_documentRules _ rule

end AttrGrammar.Xml

import AttrGrammar.Proofs.CppReading

/-! What each rule of the grammars of expressions and statements reads, given what lies between the
parts of a rule and what calling the others means. -/

namespace AttrGrammar.Peg.Reader

variable {V W : Type} (x y z : Reader V W)

theorem choice_assoc : (x.choice y).choice z = x.choice (y.choice z) := by
  funext w f u
  unfold choice
  cases x w f u <;> rfl

/-- Misses everywhere. -/
def never : Reader V W := fun _ f u => .miss f u

@[simp]
theorem choice_never : x.choice never = x := by
  funext w f u
  unfold choice
  cases x w f u <;> rfl

/-- Two parts and what lies between them. -/
def spaced (gap x y : Reader V W) : Reader V W := x.seq (gap.seq y)

theorem spaced_assoc (gap : Reader V W) :
    spaced gap (spaced gap x y) z = spaced gap x (spaced gap y z) := by
  simp only [spaced, seq_assoc]

end AttrGrammar.Peg.Reader

namespace AttrGrammar.Cpp
open Text Peg
open Reader Context

/-- What calling the rules means. -/
abbrev Rules := String → Callee Value Unit

section

variable (gap : Reader Value Unit) (call : Rules)

/-- Calls a rule under its own name. -/
abbrev calling (rule : String) : Reader Value Unit := .nonterminal (call rule) rule []

/-- Calls a rule, or ends the parse where it misses. -/
abbrev demanding (rule : String) : Reader Value Unit := expect (calling call rule)

/-- One character, or the end of the parse. -/
abbrev demandingChar (c : Char) : Reader Value Unit := expect (oneChar (· == c))

/-- One of several operators, which is remembered; the first that stands here counts. -/
def readOperator : List BinaryOp → Reader Value Unit
  | [] => never
  | op :: operators =>
    (action (rememberOperator op) (literal op.symbol.toList)).choice (readOperator operators)

/-- An operator and the operand behind it. -/
def readOperation (operand : String) (operators : List BinaryOp) : Reader Value Unit :=
  action (combine operand) <| spaced gap (readOperator operators) (demanding call operand)

def readExpression : Callee Value Unit :=
  activation [] [] true <| action (passOn "LogicalOr") (calling call "LogicalOr")

def readLevel (operand : String) (operators : List BinaryOp) : Callee Value Unit :=
  activation ["op"] [] true <| spaced gap (action (passOn operand) (calling call operand)) <|
    star gap (readOperation gap call operand operators)

/-- A sign and the operand behind it. -/
def readSigned (sign : Char) (op : UnaryOp) : Reader Value Unit :=
  action (applyUnary op) <| spaced gap (oneChar (· == sign)) (demanding call "Unary")

def readUnary : Callee Value Unit :=
  activation [] [] true <| (readSigned gap call '-' .negate).choice <|
    (readSigned gap call '!' .not).choice <| action (passOn "Primary") (calling call "Primary")

def readPrimary : Callee Value Unit :=
  activation [] [] true <| (action (passOn "Integer") (calling call "Integer")).choice <|
    (action (passOn "Identifier") (calling call "Identifier")).choice <|
    action (passOn "Expression") <| spaced gap (oneChar (· == '(')) <|
      spaced gap (demanding call "Expression") (demandingChar ')')

def readNumber : Callee Value Unit :=
  activation [] [] true <| action readInteger <| plus .nothing (oneChar CharClass.digit.admits)

/-- A word, whether or not it is a keyword. -/
def readWord : Reader Value Unit :=
  (oneChar CharClass.idStart.admits).seq (star .nothing (oneChar CharClass.idCont.admits))

def readName : Callee Value Unit :=
  activation [] [] true <| action readIdentifier <|
    difference readWord (keywordList readWord keywords)

/-- A comment up to the end of its line. -/
def readLineComment : Reader Value Unit :=
  spaced gap (literal "//".toList)
    (star gap (difference (oneChar fun _ => true) (oneChar (· == '\n'))))

/-- A comment between its two marks. -/
def readBlockComment : Reader Value Unit :=
  spaced gap (literal "/*".toList) <|
    spaced gap (star gap (difference (oneChar fun _ => true) (literal "*/".toList)))
      (expect (literal "*/".toList))

/-- A character of white space or a comment. -/
def readPiece : Reader Value Unit :=
  (oneChar CharClass.space.admits).choice <| (readLineComment gap).choice (readBlockComment gap)

def readSpacing : Callee Value Unit := activation [] [] false <| plus gap (readPiece gap)

/-- A condition in its parentheses. -/
def readCondition : Reader Value Unit :=
  spaced gap (spaced gap (demandingChar '(') (demanding call "Expression")) (demandingChar ')')

/-- A word that is not the beginning of a longer one. -/
abbrev readKeyword (word : String) : Reader Value Unit := keyword word.toList (oneChar isIdCont)

def readStatement : Callee Value Unit :=
  let kind (rule : String) : Reader Value Unit := .nonterminal (call rule) "statement" []
  activation [] [] true <| action passStatement <| (kind "CompoundStatement").choice <|
    (kind "IfStatement").choice <| (kind "WhileStatement").choice <|
    (kind "ReturnStatement").choice <| (kind "EmptyStatement").choice <| kind "ExpressionStatement"

def readCompound : Callee Value Unit :=
  activation [] [] true <|
    spaced gap (action (setStatement (.compound [])) (oneChar (· == '\x7b'))) <|
    spaced gap (star gap (action addStatement (calling call "Statement"))) (demandingChar '\x7d')

def readIf : Callee Value Unit :=
  activation [] [] true <|
    spaced gap
      (action (setConditional .ifThen) <| spaced gap (readKeyword "if") <|
        spaced gap (readCondition gap call) (demanding call "Statement")) <|
      optional <| action addElse <| spaced gap (readKeyword "else") (demanding call "Statement")

def readWhile : Callee Value Unit :=
  activation [] [] true <| action (setConditional .loop) <| spaced gap (readKeyword "while") <|
    spaced gap (readCondition gap call) (demanding call "Statement")

def readReturn : Callee Value Unit :=
  activation [] [] true <| action setReturn <| spaced gap (readKeyword "return") <|
    spaced gap (optional (calling call "Expression")) (demandingChar ';')

def readEmpty : Callee Value Unit :=
  activation [] [] true <| action (setStatement .empty) (oneChar (· == ';'))

def readExpressionStatement : Callee Value Unit :=
  activation [] [] true <| action setExpressionStatement <|
    spaced gap (calling call "Expression") (demandingChar ';')

/-- What a rule reads by its name. -/
def readRule : Rules
  | "Expression" => readExpression call
  | "LogicalOr" => readLevel gap call "LogicalAnd" [.logicalOr]
  | "LogicalAnd" => readLevel gap call "Equality" [.logicalAnd]
  | "Equality" => readLevel gap call "Relational" [.equal, .notEqual]
  | "Relational" => readLevel gap call "Additive" [.lessEqual, .greaterEqual, .less, .greater]
  | "Additive" => readLevel gap call "Multiplicative" [.add, .subtract]
  | "Multiplicative" => readLevel gap call "Unary" [.multiply, .divide, .remainder]
  | "Unary" => readUnary gap call
  | "Primary" => readPrimary gap call
  | "Integer" => readNumber
  | "Identifier" => readName
  | "Spacing" => readSpacing gap
  | "Statement" => readStatement call
  | "CompoundStatement" => readCompound gap call
  | "IfStatement" => readIf gap call
  | "WhileStatement" => readWhile gap call
  | "ReturnStatement" => readReturn gap call
  | "EmptyStatement" => readEmpty
  | "ExpressionStatement" => readExpressionStatement gap call
  | _ => fun _ _ u => .stop .faulty u

end

theorem calleeOf_allRules (call : Bool → Rules) (skips : Bool) (rule : String) :
    calleeOf allRules (some "Spacing") call skips rule =
      readRule (Reader.gap (some "Spacing") call skips) (call skips) rule := by
  unfold readRule
  split
  case h_20 =>
    rw [calleeOf, List.find?_eq_none.2]
    simp only [allRules, expressionRules, statementRules, binaryLevel, List.forall_mem_append,
      List.forall_mem_cons, List.not_mem_nil, beq_iff_eq]
    grind
  case h_1 | h_10 | h_11 | h_18 | h_19 => rfl
  case h_12 => simp only [readSpacing, readPiece, readBlockComment, ← spaced_assoc]; rfl
  all_goals
    simp only [readLevel, readOperation, readOperator, readUnary, readPrimary, readStatement,
      readCompound, readIf, readWhile, readReturn, ← choice_assoc, ← spaced_assoc, choice_never]
    rfl

theorem reader_succ (levels : Nat) (skips : Bool) (rule : String) :
    reader (levels + 1) skips rule = readRule (gap levels skips) (reader levels skips) rule :=
  calleeOf_allRules _ skips rule

end AttrGrammar.Cpp

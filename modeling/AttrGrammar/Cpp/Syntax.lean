/-! Syntax trees of a small part of C++: expressions over integers and identifiers, and statements.
-/

namespace AttrGrammar.Cpp

inductive BinaryOp where
  | logicalOr
  | logicalAnd
  | equal
  | notEqual
  | less
  | lessEqual
  | greater
  | greaterEqual
  | add
  | subtract
  | multiply
  | divide
  | remainder
  deriving DecidableEq

namespace BinaryOp

def symbol : BinaryOp → String
  | logicalOr => "||"
  | logicalAnd => "&&"
  | equal => "=="
  | notEqual => "!="
  | less => "<"
  | lessEqual => "<="
  | greater => ">"
  | greaterEqual => ">="
  | add => "+"
  | subtract => "-"
  | multiply => "*"
  | divide => "/"
  | remainder => "%"

def all : List BinaryOp :=
  [logicalOr, logicalAnd, equal, notEqual, less, lessEqual, greater, greaterEqual, add, subtract,
   multiply, divide, remainder]

def ofSymbol? (symbol : String) : Option BinaryOp := all.find? (·.symbol == symbol)

end BinaryOp

inductive UnaryOp where
  | negate
  | not
  deriving DecidableEq

def UnaryOp.symbol : UnaryOp → String
  | negate => "-"
  | not => "!"

inductive Expression where
  | identifier (name : String)
  | integer (value : Int)
  | unary (op : UnaryOp) (operand : Expression)
  | binary (op : BinaryOp) (left right : Expression)
  deriving DecidableEq, Inhabited

/-- An expression in full parentheses, so that its shape can be seen. -/
def Expression.render : Expression → String
  | identifier name => name
  | integer value => toString value
  | unary op operand => op.symbol ++ operand.render
  | binary op l r => "(" ++ l.render ++ " " ++ op.symbol ++ " " ++ r.render ++ ")"

inductive Statement where
  | compound (body : List Statement)
  | ifThen (condition : Expression) (thenBranch : Statement)
  | ifElse (condition : Expression) (thenBranch elseBranch : Statement)
  | loop (condition : Expression) (body : Statement)
  | ret (value : Option Expression)
  | expression (e : Expression)
  | empty
  deriving Inhabited

namespace Statement

/-- A line of an outline at some depth. -/
def outlineLine (depth : Nat) (text : String) : String :=
  String.join (List.replicate depth "  ") ++ text ++ "\n"

mutual

/-- A statement as an indented outline that begins at some depth. -/
def outline (depth : Nat) : Statement → String
  | compound body => outlineLine depth "compound" ++ outlineAll (depth + 1) body
  | ifThen condition thenBranch =>
    outlineLine depth ("if " ++ condition.render) ++ outline (depth + 1) thenBranch
  | ifElse condition thenBranch elseBranch =>
    outlineLine depth ("if " ++ condition.render) ++ outline (depth + 1) thenBranch ++
      outlineLine depth "else" ++ outline (depth + 1) elseBranch
  | loop condition body =>
    outlineLine depth ("while " ++ condition.render) ++ outline (depth + 1) body
  | ret (some value) => outlineLine depth ("return " ++ value.render)
  | ret none => outlineLine depth "return"
  | expression e => outlineLine depth e.render
  | empty => outlineLine depth ";"

def outlineAll (depth : Nat) : List Statement → String
  | [] => ""
  | s :: rest => outline depth s ++ outlineAll depth rest

end

end Statement

/-- What the rules of the grammars return. -/
inductive Value where
  | expression (e : Expression)
  | statement (s : Statement)
  | operator (op : BinaryOp)

namespace Value

def expression? : Value → Option Expression
  | expression e => some e
  | _ => none

def statement? : Value → Option Statement
  | statement s => some s
  | _ => none

def operator? : Value → Option BinaryOp
  | operator op => some op
  | _ => none

end Value

end AttrGrammar.Cpp

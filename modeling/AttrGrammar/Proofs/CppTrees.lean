import AttrGrammar.Proofs.CppLexemes
import AttrGrammar.Proofs.CppWriting
import AttrGrammar.Text.Numeral

/-! Trees and what they are written as. An open statement ends with a branch that an `else` behind
it would belong to; a tree can be written down if no open statement stands before an `else` in it. The
tokens of a tree are what has to be written, in this order; parentheses are up to the writer. -/

namespace AttrGrammar.Cpp
open Text Peg

/-! ### Branches -/

/-- An `else` behind the statement would belong to an if statement at its end. -/
def Statement.isOpen : Statement → Bool
  | .ifThen _ _ => true
  | .ifElse _ _ elseBranch => elseBranch.isOpen
  | .loop _ body => body.isOpen
  | .compound _ | .ret _ | .expression _ | .empty => false

/-- All expressions are writable, and the branch between an `if` and its `else` is never open. -/
inductive Statement.Writable : Statement → Prop where
  | compound {body : List Statement} (h : ∀ s ∈ body, s.Writable) : Writable (.compound body)
  | ifThen {condition : Expression} {thenBranch : Statement} (hcondition : condition.Writable)
    (hthen : thenBranch.Writable) : Writable (.ifThen condition thenBranch)
  | ifElse {condition : Expression} {thenBranch elseBranch : Statement}
    (hcondition : condition.Writable) (hclosed : thenBranch.isOpen = false)
    (hthen : thenBranch.Writable) (helse : elseBranch.Writable) :
    Writable (.ifElse condition thenBranch elseBranch)
  | loop {condition : Expression} {body : Statement} (hcondition : condition.Writable)
    (hbody : body.Writable) : Writable (.loop condition body)
  | ret {value : Option Expression} (h : ∀ e ∈ value, e.Writable) : Writable (.ret value)
  | expression {e : Expression} (h : e.Writable) : Writable (.expression e)
  | empty : Writable .empty

/-! ### Tokens -/

/-- What counts of a lexeme: of a number the value, of a word or a mark how it is written. -/
inductive Token where
  | number (value : Int)
  | plain (lexeme : List Char)
  deriving DecidableEq

def Token.ofLexeme (l : List Char) : Token :=
  if l.head?.any Char.isDigit then .number (numeral 10 l) else .plain l

def parentheses : List (List Char) := [['('], [')']]

/-- The tokens of some lexemes, without the parentheses. -/
def significant (ls : List (List Char)) : List Token :=
  (ls.filter fun l => !parentheses.contains l).map Token.ofLexeme

@[simp]
theorem significant_nil : significant [] = [] := rfl

theorem significant_parenthesis {l : List Char} (hl : l ∈ parentheses) (ls : List (List Char)) :
    significant (l :: ls) = significant ls :=
  congrArg (List.map Token.ofLexeme) (List.filter_cons_of_neg (by simpa using hl))

theorem significant_cons {l : List Char} (hl : l ∉ parentheses) (ls : List (List Char)) :
    significant (l :: ls) = .ofLexeme l :: significant ls :=
  congrArg (List.map Token.ofLexeme) (List.filter_cons_of_pos (by simpa using hl))

/-- Words and marks other than parentheses count as they are written. -/
theorem significant_plain {l : List Char} (hl : l ∉ parentheses)
    (hdigit : l.head?.any Char.isDigit = false) (ls : List (List Char)) :
    significant (l :: ls) = .plain l :: significant ls := by
  rw [significant_cons hl, Token.ofLexeme, hdigit]
  rfl

theorem significant_symbol (op : BinaryOp) (ls : List (List Char)) :
    significant (op.symbol.toList :: ls) = .plain op.symbol.toList :: significant ls := by
  cases op <;> exact significant_plain (by decide) rfl ls

theorem significant_sign (op : UnaryOp) (ls : List (List Char)) :
    significant (op.symbol.toList :: ls) = .plain op.symbol.toList :: significant ls := by
  cases op <;> exact significant_plain (by decide) rfl ls

/-- The tokens of an expression, an operator between those of its operands. -/
def Expression.tokens : Expression → List Token
  | identifier name => [.plain name.toList]
  | integer value => [.number value]
  | unary op operand => .plain op.symbol.toList :: operand.tokens
  | binary op l r => l.tokens ++ .plain op.symbol.toList :: r.tokens

namespace Statement

mutual

/-- The tokens of a statement, in the order in which its parts are written. -/
def tokens : Statement → List Token
  | compound body => .plain ['\x7b'] :: (tokensAll body ++ [.plain ['\x7d']])
  | ifThen condition thenBranch =>
    .plain "if".toList :: (condition.tokens ++ thenBranch.tokens)
  | ifElse condition thenBranch elseBranch =>
    .plain "if".toList :: (condition.tokens ++ thenBranch.tokens ++
      .plain "else".toList :: elseBranch.tokens)
  | loop condition body => .plain "while".toList :: (condition.tokens ++ body.tokens)
  | ret (some value) => .plain "return".toList :: (value.tokens ++ [.plain [';']])
  | ret none => [.plain "return".toList, .plain [';']]
  | expression e => e.tokens ++ [.plain [';']]
  | empty => [.plain [';']]

def tokensAll : List Statement → List Token
  | [] => []
  | s :: rest => s.tokens ++ tokensAll rest

end

theorem tokensAll_append (body body' : List Statement) :
    tokensAll (body ++ body') = tokensAll body ++ tokensAll body' := by
  induction body with
  | nil => rfl
  | cons s body ih => rw [List.cons_append, tokensAll, tokensAll, ih, List.append_assoc]

end Statement

end AttrGrammar.Cpp

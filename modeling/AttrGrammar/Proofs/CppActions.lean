import AttrGrammar.Proofs.CppRoundTrip

/-! What the actions of the grammars make of a frame. Each takes the values that the calls of its
branch left, so the frame is as it was before them, but for the tree that the rule returns. -/

namespace AttrGrammar.Cpp.Context
open Peg

variable {f : Frame Value} (text : List Char)

theorem applyUnary_of (hf : f.instances = []) (op : UnaryOp) (e : Expression) :
    applyUnary op (.of (f.setInstance "Unary" (.expression e)) text ()) =
      .of (f.setValue (.expression (.unary op e))) text () := by
  rw [applyUnary, takeExpression_of hf]
  rfl

/-- Both operands are joined, and the operator is taken away again. -/
theorem combine_of (operand : String) (op : BinaryOp) (l r : Expression) :
    let start : Frame Value := (Frame.ofLocals ["op"]).bindInherited [] []
    combine operand (.of ((((start.setValue (.expression l)).setLocal "op" (.operator op)).2
        ).setInstance operand (.expression r)) text ()) =
      .of (start.setValue (.expression (.binary op l r))) text () := by
  intro start
  rw [combine, takeExpression_of rfl]
  rfl

theorem takeStatement_of (hf : f.instances = []) (rule : String) (s : Statement) :
    takeStatement rule (.of (f.setInstance rule (.statement s)) text ()) =
      (some s, .of f text ()) := by
  unfold takeStatement ActionContext.takeInstance ActionContext.of
  dsimp only
  rw [Frame.takeInstance_setInstance hf]
  rfl

theorem passStatement_of (hf : f.instances = []) (s : Statement) :
    passStatement (.of (f.setInstance "statement" (.statement s)) text ()) =
      .of (f.setValue (.statement s)) text () := by
  rw [passStatement, takeStatement_of text hf]
  rfl

theorem addStatement_of (hf : f.instances = []) (body : List Statement) (s : Statement) :
    addStatement (.of ((f.setValue (.statement (.compound body))).setInstance "Statement"
        (.statement s)) text ()) =
      .of (f.setValue (.statement (.compound (body ++ [s])))) text () := by
  rw [addStatement, takeStatement_of text (show (f.setValue _).instances = [] from hf)]
  rfl

theorem setConditional_of (hf : f.instances = []) (make : Expression → Statement → Statement)
    (condition : Expression) (body : Statement) :
    setConditional make (.of ((f.setInstance "Expression" (.expression condition)).setInstance
        "Statement" (.statement body)) text ()) =
      .of (f.setValue (.statement (make condition body))) text () := by
  obtain ⟨value, inherited, locals, instances⟩ := f
  cases hf
  rfl

theorem addElse_of (hf : f.instances = []) (condition : Expression)
    (thenBranch elseBranch : Statement) :
    addElse (.of ((f.setValue (.statement (.ifThen condition thenBranch))).setInstance "Statement"
        (.statement elseBranch)) text ()) =
      .of (f.setValue (.statement (.ifElse condition thenBranch elseBranch))) text () := by
  rw [addElse, takeStatement_of text (show (f.setValue _).instances = [] from hf)]
  rfl

/-- A value to return is there if an expression has been read. -/
theorem setReturn_of (hf : f.instances = []) (value : Option Expression) :
    setReturn (.of (value.elim f fun e => f.setInstance "Expression" (.expression e)) text ()) =
      .of (f.setValue (.statement (.ret value))) text () := by
  obtain ⟨v, inherited, locals, instances⟩ := f
  cases hf
  cases value <;> rfl

theorem setExpressionStatement_of (hf : f.instances = []) (e : Expression) :
    setExpressionStatement (.of (f.setInstance "Expression" (.expression e)) text ()) =
      .of (f.setValue (.statement (.expression e))) text () := by
  rw [setExpressionStatement, takeExpression_of hf]
  rfl

end AttrGrammar.Cpp.Context

import AttrGrammar.Proofs.CppActions
import AttrGrammar.Proofs.CppLexemeLogic
import AttrGrammar.Proofs.CppTrees

/-! Statements as they are written. A blank stands between any two tokens but those of an
expression, so a text of a statement has the lexemes of its parts one after the other. -/

namespace AttrGrammar.Cpp
open Text Peg Parse
open Reader Context

/-! ### Texts of statements -/

namespace Statement

mutual

/-- What a statement is written as, with a blank between any two tokens. -/
def render : Statement → String
  | compound body => "\x7b " ++ renderAll body ++ "\x7d"
  | ifThen condition thenBranch => "if ( " ++ condition.render ++ " ) " ++ thenBranch.render
  | ifElse condition thenBranch elseBranch =>
    "if ( " ++ condition.render ++ " ) " ++ thenBranch.render ++ " else " ++ elseBranch.render
  | loop condition body => "while ( " ++ condition.render ++ " ) " ++ body.render
  | ret (some value) => "return " ++ value.render ++ " ;"
  | ret none => "return ;"
  | expression e => e.render ++ " ;"
  | empty => ";"

def renderAll : List Statement → String
  | [] => ""
  | s :: body => s.render ++ " " ++ renderAll body

end

def text (s : Statement) : List Char := s.render.toList

def textAll (body : List Statement) : List Char := (renderAll body).toList

end Statement

/-- A word and a condition in parentheses, and what follows them. -/
def headed (word : String) (condition : Expression) (rest : List Char) : List Char :=
  word.toList ++ ' ' :: '(' :: ' ' :: (condition.text ++ ' ' :: ')' :: ' ' :: rest)

section

variable (rest : List Char)

namespace Statement

theorem text_compound (body : List Statement) :
    (compound body).text ++ rest = '\x7b' :: ' ' :: (textAll body ++ '\x7d' :: rest) := by
  simp only [text, render, textAll, String.toList_append, List.append_assoc]
  rfl

theorem text_ifThen (condition : Expression) (thenBranch : Statement) :
    (ifThen condition thenBranch).text ++ rest =
      headed "if" condition (thenBranch.text ++ rest) := by
  simp only [text, render, headed, Expression.text, String.toList_append, List.append_assoc]
  rfl

theorem text_ifElse (condition : Expression) (thenBranch elseBranch : Statement) :
    (ifElse condition thenBranch elseBranch).text ++ rest = headed "if" condition
      (thenBranch.text ++ ' ' :: ("else".toList ++ ' ' :: (elseBranch.text ++ rest))) := by
  simp only [text, render, headed, Expression.text, String.toList_append, List.append_assoc]
  rfl

theorem text_loop (condition : Expression) (body : Statement) :
    (loop condition body).text ++ rest = headed "while" condition (body.text ++ rest) := by
  simp only [text, render, headed, Expression.text, String.toList_append, List.append_assoc]
  rfl

theorem text_ret_some (value : Expression) :
    (ret (some value)).text ++ rest =
      "return".toList ++ ' ' :: (value.text ++ ' ' :: ';' :: rest) := by
  simp only [text, render, Expression.text, String.toList_append, List.append_assoc]
  rfl

theorem text_ret_none : (ret none).text ++ rest = "return".toList ++ ' ' :: ';' :: rest := rfl

theorem text_expression (e : Expression) :
    (expression e).text ++ rest = e.text ++ ' ' :: ';' :: rest := by
  simp only [text, render, Expression.text, String.toList_append, List.append_assoc]
  rfl

theorem text_empty : empty.text ++ rest = ';' :: rest := rfl

theorem textAll_cons (s : Statement) (body : List Statement) :
    textAll (s :: body) ++ rest = s.text ++ ' ' :: (textAll body ++ rest) := by
  simp only [text, textAll, renderAll, String.toList_append, List.append_assoc]
  rfl

theorem length_text_le {s : Statement} {body : List Statement} (hs : s ∈ body) :
    s.text.length ≤ (textAll body).length := by
  induction body with
  | nil => cases hs
  | cons t body ih =>
      have hlength := congrArg List.length (textAll_cons [] t body)
      simp only [List.append_nil, List.length_append, List.length_cons] at hlength
      rcases List.mem_cons.1 hs with rfl | hs
      · omega
      · have hbehind := ih hs
        omega

end Statement

end

/-! ### Lexemes of statements -/

theorem forall_punctuation {p : Char → Prop} :
    (∀ c ∈ punctuation, p c) ↔ p '(' ∧ p ')' ∧ p '\x7b' ∧ p '\x7d' ∧ p ';' := by
  simp [punctuation]

section

variable {c : Char} {e : Expression}

theorem firstLexeme_punctuation (hc : c ∈ punctuation) (w : List Char) :
    firstLexeme (c :: w) = [c] :=
  have hlongest := longest_punctuation hc
  (mark_prefix_iff hlongest.1 hlongest.first_eq).1 ⟨w, rfl⟩

theorem settled_punctuation (hc : c ∈ punctuation) (w : List Char) : Settled (c :: w) := by
  have hmarks : ∀ c ∈ punctuation, isWhiteSpace c = false ∧ c ≠ '/' :=
    forall_punctuation.2 (by decide)
  obtain ⟨hspace, hslash⟩ := hmarks c hc
  have hbegins (word : List Char) : ¬ '/' :: word <+: c :: w :=
    fun h => hslash (List.cons_prefix_cons.1 h).1.symm
  exact (settled_iff _).2 ⟨hspace, hbegins _, hbegins _⟩

theorem lexemes_punctuation (hc : c ∈ punctuation) (w : List Char) :
    lexemes (c :: w) = [c] :: lexemes w := by
  have hfirst : firstLexeme ([c] ++ w) = [c] := firstLexeme_punctuation hc w
  rw [(settled_punctuation hc w).lexemes_cons (by simp), firstLexeme_punctuation hc]
  exact congrArg ([c] :: lexemes ·) (behindLexeme_eq hfirst)

theorem lexemes_keyword {word : String} (hword : word ∈ keywords) (w : List Char) :
    lexemes (word.toList ++ ' ' :: w) = word.toList :: lexemes w := by
  obtain ⟨hstart, hcont⟩ := keywords_spec word hword
  have hopens : word.toList.head?.any opens := any_head?_mono
    (fun _ hc => Bool.or_eq_true_iff.2 (.inl (isIdCont_of_isIdStart hc))) hstart
  exact lexemes_spaced (settled_append hopens _)
    (firstLexeme_word_append hstart (List.all_eq_true.1 hcont) (ends_blank w))

theorem lexemes_headed {word : String} (hword : word ∈ keywords) (rest : List Char) :
    lexemes (headed word e rest) =
      word.toList :: ['('] :: lexemes (e.text ++ ' ' :: ')' :: ' ' :: rest) := by
  rw [headed, lexemes_keyword hword, lexemes_punctuation (by decide), lexemes_blank]

/-- No expression begins with a keyword. -/
theorem firstLexeme_ne_keyword (he : e.Writable) {rest : List Char} (hrest : Ends isIdCont rest)
    {word : String} (hword : word ∈ keywords) : firstLexeme (e.text ++ rest) ≠ word.toList := by
  have hstart := (keywords_spec word hword).1
  have hother (h : Ends isIdStart (e.text ++ rest)) :
      firstLexeme (e.text ++ rest) ≠ word.toList := by
    intro hfirst
    rw [← hfirst, head?_firstLexeme, h.any_head?] at hstart
    cases hstart
  cases e with
  | identifier name =>
      obtain ⟨hname, hcont, hreserved⟩ := he
      show firstLexeme (name.toList ++ rest) ≠ _
      rw [firstLexeme_word_append hname (List.all_eq_true.1 hcont) hrest]
      exact fun h => hreserved (String.toList_injective h ▸ hword)
  | integer value =>
      obtain ⟨n, rfl⟩ := Int.eq_ofNat_of_zero_le he.1
      refine hother ?_
      rw [Expression.text_integer]
      exact ends_of_any_head? (fun _ => isIdStart_of_isDigit) (any_head?_append (head?_toDigits n))
  | unary op operand =>
      refine hother ?_
      rw [Expression.text_unary]
      cases op <;> exact ends_mono (ends_cons (not_isIdCont (by decide))) fun _ =>
        isIdCont_of_isIdStart
  | binary op l r =>
      refine hother ?_
      rw [Expression.text_binary]
      exact ends_mono (ends_cons (not_isIdCont (by decide))) fun _ => isIdCont_of_isIdStart

end

end AttrGrammar.Cpp

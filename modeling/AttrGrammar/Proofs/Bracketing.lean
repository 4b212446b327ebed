import Mathlib.Data.List.Basic
import AttrGrammar.Peg.Render

/-! Bracketings. A list of parts can be put together two at a time in many ways, and so can the
parts of every sequence and of every alternative inside a tree. Among the trees that arise in this
way from each other there is one in which no sequence has a sequence as its first part, and no
alternative has an alternative there. It is computed here, and shown as the others are shown. -/

namespace AttrGrammar.Peg

/-- A way to put parts together two at a time: one part, or two bracketings next to each other. -/
inductive Bracketing (α : Type) where
  | part (part : α)
  | pair (left right : Bracketing α)

namespace Bracketing

variable {α : Type}

/-- The parts from left to right. -/
def parts : Bracketing α → List α
  | part p => [p]
  | pair l r => l.parts ++ r.parts

/-- The whole put together, two at a time. -/
def build (join : α → α → α) : Bracketing α → α
  | part p => p
  | pair l r => join (l.build join) (r.build join)

theorem parts_ne_nil (b : Bracketing α) : b.parts ≠ [] := by
  induction b with
  | part p => exact List.cons_ne_nil p []
  | pair l r ihl ihr => exact List.append_ne_nil_of_left_ne_nil ihl r.parts

end Bracketing

namespace Parser

variable {V ρ α β : Type} {join : Parser V ρ α → Parser V ρ α → Parser V ρ α} {op : β → β → β}
  {value : Parser V ρ α → β}

/-! ### The value of a list of parts -/

theorem value_foldl (hjoin : ∀ p q, value (join p q) = op (value p) (value q))
    (rest : List (Parser V ρ α)) (first : Parser V ρ α) :
    value (rest.foldl join first) = (rest.map value).foldl op (value first) := by
  induction rest generalizing first with
  | nil => rfl
  | cons part rest ih => rw [List.foldl_cons, ih, hjoin, List.map_cons, List.foldl_cons]

/-- Two lists of parts combined apart and then joined have the value of the whole list, where the
order of joining makes no difference to the values. -/
theorem value_combine_append [Std.Associative op]
    (hjoin : ∀ p q, value (join p q) = op (value p) (value q)) {ps qs : List (Parser V ρ α)}
    (hps : ps ≠ []) (hqs : qs ≠ []) :
    value (combine join (ps ++ qs)) = op (value (combine join ps)) (value (combine join qs)) := by
  obtain ⟨p, ps, rfl⟩ := List.exists_cons_of_ne_nil hps
  obtain ⟨q, qs, rfl⟩ := List.exists_cons_of_ne_nil hqs
  calc value (combine join (p :: ps ++ q :: qs))
      = ((ps ++ q :: qs).map value).foldl op (value p) := value_foldl hjoin _ p
    _ = (qs.map value).foldl op (op ((ps.map value).foldl op (value p)) (value q)) := by
        rw [List.map_append, List.foldl_append, List.map_cons, List.foldl_cons]
    _ = op ((ps.map value).foldl op (value p)) ((qs.map value).foldl op (value q)) :=
        List.foldl_assoc
    _ = op (value (combine join (p :: ps))) (value (combine join (q :: qs))) := by
        rw [combine, combine, value_foldl hjoin, value_foldl hjoin]

/-- Every bracketing of a list has the value that combining the list from the left has. -/
theorem value_build [Std.Associative op] (hjoin : ∀ p q, value (join p q) = op (value p) (value q))
    (b : Bracketing (Parser V ρ α)) : value (b.build join) = value (combine join b.parts) := by
  induction b with
  | part p => rfl
  | pair l r ihl ihr =>
    calc value (join (l.build join) (r.build join))
        = op (value (combine join l.parts)) (value (combine join r.parts)) := by
          rw [hjoin, ihl, ihr]
      _ = value (combine join (l.parts ++ r.parts)) :=
          (value_combine_append hjoin l.parts_ne_nil r.parts_ne_nil).symm

/-! ### Bracketing to the right -/

/-- The parts of a sequence, one after the other in front of a tail. -/
def sequenceOnto : Parser V ρ α → Parser V ρ α → Parser V ρ α
  | sequence l r, tail => l.sequenceOnto (r.sequenceOnto tail)
  | p, tail => sequence p tail

/-- The sides of an alternative, one after the other in front of the last ones. -/
def alternativeOnto : Parser V ρ α → Parser V ρ α → Parser V ρ α
  | alternative l r, tail => l.alternativeOnto (r.alternativeOnto tail)
  | p, tail => alternative p tail

/-- The tree with every sequence and every alternative in it bracketed to the right. -/
def bracketedRight : Parser V ρ α → Parser V ρ α
  | sequence l r => l.bracketedRight.sequenceOnto r.bracketedRight
  | alternative l r => l.bracketedRight.alternativeOnto r.bracketedRight
  | keywordList selector words => keywordList selector.bracketedRight words
  | optional body => optional body.bracketedRight
  | star body => star body.bracketedRight
  | plus body => plus body.bracketedRight
  | difference l r => difference l.bracketedRight r.bracketedRight
  | exclusiveOr l r => exclusiveOr l.bracketedRight r.bracketedRight
  | intersection l r => intersection l.bracketedRight r.bracketedRight
  | list element separator => list element.bracketedRight separator.bracketedRight
  | grouping body => grouping body.bracketedRight
  | token body => token body.bracketedRight
  | expectation body => expectation body.bracketedRight
  | action a body => action a body.bracketedRight
  | p => p

theorem sequenceOnto_assoc (p q r : Parser V ρ α) :
    (p.sequenceOnto q).sequenceOnto r = p.sequenceOnto (q.sequenceOnto r) := by
  induction p generalizing q with
  | sequence l r' ihl ihr => rw [sequenceOnto, ihl, ihr, sequenceOnto]
  | _ => rfl

theorem alternativeOnto_assoc (p q r : Parser V ρ α) :
    (p.alternativeOnto q).alternativeOnto r = p.alternativeOnto (q.alternativeOnto r) := by
  induction p generalizing q with
  | alternative l r' ihl ihr => rw [alternativeOnto, ihl, ihr, alternativeOnto]
  | _ => rfl

instance : Std.Associative (sequenceOnto : Parser V ρ α → Parser V ρ α → Parser V ρ α) :=
  ⟨sequenceOnto_assoc⟩

instance : Std.Associative (alternativeOnto : Parser V ρ α → Parser V ρ α → Parser V ρ α) :=
  ⟨alternativeOnto_assoc⟩

/-- All bracketings of a list as a sequence become one tree. -/
theorem bracketedRight_build_sequence (b : Bracketing (Parser V ρ α)) :
    (b.build sequence).bracketedRight = (seq b.parts).bracketedRight := by
  have hjoin (p q : Parser V ρ α) :
      (sequence p q).bracketedRight = p.bracketedRight.sequenceOnto q.bracketedRight := rfl
  exact value_build hjoin b

/-- All bracketings of a list as a choice become one tree. -/
theorem bracketedRight_build_alternative (b : Bracketing (Parser V ρ α)) :
    (b.build alternative).bracketedRight = (choice b.parts).bracketedRight := by
  have hjoin (p q : Parser V ρ α) :
      (alternative p q).bracketedRight = p.bracketedRight.alternativeOnto q.bracketedRight := rfl
  exact value_build hjoin b

/-! ### How trees are shown -/

@[simp]
theorem level_sequenceOnto (p tail : Parser V ρ α) : (p.sequenceOnto tail).level = 3 := by
  induction p generalizing tail with
  | sequence l r ihl ihr => exact ihl _
  | _ => rfl

@[simp]
theorem level_alternativeOnto (p tail : Parser V ρ α) : (p.alternativeOnto tail).level = 1 := by
  induction p generalizing tail with
  | alternative l r ihl ihr => exact ihl _
  | _ => rfl

@[simp]
theorem level_bracketedRight (p : Parser V ρ α) : p.bracketedRight.level = p.level := by
  induction p with
  | sequence l r ihl ihr => exact level_sequenceOnto _ _
  | alternative l r ihl ihr => exact level_alternativeOnto _ _
  | action a body ih => exact ih
  | _ => rfl

theorem guarded_of_le {least : Nat} {p : Parser V ρ α} (h : least ≤ p.level) (text : String) :
    guarded least p text = text := if_neg (by omega)

theorem render_sequenceOnto [Named ρ] (p tail : Parser V ρ α) :
    (p.sequenceOnto tail).render = guarded 3 p p.render ++ " " ++ guarded 3 tail tail.render := by
  induction p generalizing tail with
  | sequence l r ihl ihr =>
    have htail : guarded 3 (r.sequenceOnto tail) (r.sequenceOnto tail).render =
        (r.sequenceOnto tail).render := guarded_of_le (by simp) _
    have hpair : guarded 3 (sequence l r) (sequence l r).render = (sequence l r).render :=
      guarded_of_le (by simp [level]) _
    rw [sequenceOnto, ihl, htail, ihr, hpair, render]
    simp only [String.append_assoc]
  | _ => rfl

theorem render_alternativeOnto [Named ρ] (p tail : Parser V ρ α) :
    (p.alternativeOnto tail).render =
      guarded 1 p p.render ++ " | " ++ guarded 1 tail tail.render := by
  induction p generalizing tail with
  | alternative l r ihl ihr =>
    have htail : guarded 1 (r.alternativeOnto tail) (r.alternativeOnto tail).render =
        (r.alternativeOnto tail).render := guarded_of_le (by simp) _
    have hpair : guarded 1 (alternative l r) (alternative l r).render =
        (alternative l r).render := guarded_of_le (by simp [level]) _
    rw [alternativeOnto, ihl, htail, ihr, hpair, render]
    simp only [String.append_assoc]
  | _ => rfl

/-- Parts bind as tightly as before and need the same parentheses. -/
theorem guarded_bracketedRight (least : Nat) (p : Parser V ρ α) (text : String) :
    guarded least p.bracketedRight text = guarded least p text := by
  rw [guarded, guarded, level_bracketedRight]

/-- How a tree is bracketed is not shown. -/
theorem render_bracketedRight [Named ρ] (p : Parser V ρ α) :
    p.bracketedRight.render = p.render := by
  induction p with
  | sequence l r ihl ihr =>
    rw [bracketedRight, render_sequenceOnto, ihl, ihr, guarded_bracketedRight,
      guarded_bracketedRight, render]
  | alternative l r ihl ihr =>
    rw [bracketedRight, render_alternativeOnto, ihl, ihr, guarded_bracketedRight,
      guarded_bracketedRight, render]
  | _ => simp only [bracketedRight, render, guarded_bracketedRight, *]

end Parser

end AttrGrammar.Peg

import AttrGrammar.Proofs.Bracketing
import AttrGrammar.Proofs.Passage

/-! Regrouping. A sequence of three parts is a pair whose first or whose second part is a pair
itself. The two go back to different places and skip on behalf of different nodes, but they are the
same step: they answer the same from every state and leave the same state behind, whatever their
parts read, push, store, note or do to the world, and also where a part breaks off. The same holds
of ordered choice. A tree can therefore be regrouped at any place and in any number of places, and
so can the trees that are put together from lists of parts. -/

namespace AttrGrammar.Parse
open Text Scan Peg

variable {V W : Type}

namespace Step

/-- What a sequence does, by the outcomes of its parts. -/
theorem sequence_apply (skip : Step V W Unit) (x y : Step V W Match) (s : State V W) :
    sequence skip x y s = match x s with
      | .error e t => .error e t
      | .ok .miss t => .ok .miss (t.backAt s.scanner.position)
      | .ok (.hit _) t => match skip t with
        | .error e u => .error e u
        | .ok () u => match y u with
          | .error e v => .error e v
          | .ok .miss v => .ok .miss (v.backAt s.scanner.position)
          | .ok (.hit _) v => .ok (.hit (v.scanner.offset - s.scanner.offset)) v := by
  simp only [sequence, bind_apply, place_apply]
  cases x s with
  | error e t => rfl
  | ok m t =>
    cases m with
    | miss => rfl
    | hit n =>
      show (skip >>= _) t = _
      rw [bind_apply]
      dsimp only
      cases skip t with
      | error e u => rfl
      | ok _ u =>
        dsimp only
        rw [bind_apply]
        cases y u with
        | error e v => rfl
        | ok m' v => cases m' <;> rfl

/-- What an alternative does, by the outcomes of its sides. -/
theorem alternative_apply (x y : Step V W Match) (s : State V W) :
    alternative x y s = match x s with
      | .error e t => .error e t
      | .ok (.hit n) t => .ok (.hit n) t
      | .ok .miss t => match y (t.backAt s.scanner.position) with
        | .error e u => .error e u
        | .ok (.hit n) u => .ok (.hit n) u
        | .ok .miss u => .ok .miss (u.backAt s.scanner.position) := by
  simp only [alternative, bind_apply, place_apply]
  cases x s with
  | error e t => rfl
  | ok m t =>
    cases m with
    | hit n => rfl
    | miss =>
      show (y >>= _) (t.backAt s.scanner.position) = _
      rw [bind_apply]
      dsimp only
      cases y (t.backAt s.scanner.position) with
      | error e u => rfl
      | ok m' u => cases m' <;> rfl

/-- Three steps one after the other are the same step however they are paired. Where the last one
misses, the pair on the right goes back to where the second one began and then, as the pair on the
left does at once, to where the first one did. -/
theorem sequence_assoc (skip : Step V W Unit) (x y z : Step V W Match) :
    sequence skip (sequence skip x y) z = sequence skip x (sequence skip y z) := by
  funext s
  rw [sequence_apply, sequence_apply, sequence_apply skip x]
  cases x s with
  | error e t => rfl
  | ok m t =>
    cases m with
    | miss => rfl
    | hit n =>
      dsimp only
      cases skip t with
      | error e u => rfl
      | ok _ u =>
        dsimp only
        rw [sequence_apply]
        cases y u with
        | error e v => rfl
        | ok m v =>
          cases m with
          | miss => rfl
          | hit n =>
            dsimp only
            cases skip v with
            | error e w => rfl
            | ok _ w =>
              dsimp only
              cases z w with
              | error e w' => rfl
              | ok m w' => cases m <;> rfl

/-- Three alternatives are the same step however they are paired. The inner pair on the right
begins where the outer one went back to, and so goes back there itself. -/
theorem alternative_assoc (x y z : Step V W Match) :
    alternative (alternative x y) z = alternative x (alternative y z) := by
  funext s
  rw [alternative_apply, alternative_apply, alternative_apply x]
  cases x s with
  | error e t => rfl
  | ok m t =>
    cases m with
    | hit n => rfl
    | miss =>
      dsimp only
      rw [alternative_apply]
      cases y (t.backAt s.scanner.position) with
      | error e u => rfl
      | ok m u =>
        cases m with
        | hit n => rfl
        | miss =>
          have hback : (u.backAt s.scanner.position).backAt s.scanner.position =
              u.backAt (t.backAt s.scanner.position).scanner.position := rfl
          dsimp only
          rw [hback]
          cases z (u.backAt (t.backAt s.scanner.position).scanner.position) with
          | error e v => rfl
          | ok m v => cases m <;> rfl

end Step

/-! ### Trees -/

variable (setting : Setting V W) (call : RuleId → Step V W Match)

theorem evalParser_sequenceOnto (p tail : LinkedParser V W) :
    evalParser setting call (p.sequenceOnto tail) =
      .sequence (.skip setting call) (evalParser setting call p) (evalParser setting call tail) := by
  induction p generalizing tail with
  | sequence l r ihl ihr => rw [Parser.sequenceOnto, ihl, ihr, evalParser, Step.sequence_assoc]
  | _ => rfl

theorem evalParser_alternativeOnto (p tail : LinkedParser V W) :
    evalParser setting call (p.alternativeOnto tail) =
      .alternative (evalParser setting call p) (evalParser setting call tail) := by
  induction p generalizing tail with
  | alternative l r ihl ihr =>
    rw [Parser.alternativeOnto, ihl, ihr, evalParser, Step.alternative_assoc]
  | _ => rfl

/-- How the sequences and alternatives in a tree are bracketed makes no difference to what it
means. What an expectation says is missing does not depend on it either. -/
theorem evalParser_bracketedRight (p : LinkedParser V W) :
    evalParser setting call p.bracketedRight = evalParser setting call p := by
  induction p with
  | sequence l r ihl ihr =>
    rw [Parser.bracketedRight, evalParser_sequenceOnto, ihl, ihr, evalParser]
  | alternative l r ihl ihr =>
    rw [Parser.bracketedRight, evalParser_alternativeOnto, ihl, ihr, evalParser]
  | expectation body ih =>
    rw [Parser.bracketedRight, evalParser, ih, Parser.render_bracketedRight, evalParser]
  | _ => simp only [Parser.bracketedRight, evalParser, *]

/-- Trees that become one when they are bracketed to the right mean the same step. -/
theorem evalParser_of_bracketedRight_eq {p q : LinkedParser V W}
    (h : p.bracketedRight = q.bracketedRight) :
    evalParser setting call p = evalParser setting call q := by
  calc evalParser setting call p
      = evalParser setting call p.bracketedRight := (evalParser_bracketedRight setting call p).symm
    _ = evalParser setting call q.bracketedRight := by rw [h]
    _ = evalParser setting call q := evalParser_bracketedRight setting call q

/-- Regrouping cannot be observed: three parts in a sequence or in a choice are the same step
however they are paired, from every state and with everything that actions do to the world; so are
all bracketings of a list as a sequence, and all of them as a choice; and a tree in which any number
of sequences and choices are bracketed anew means the same and is shown in the same way. -/
theorem evalParser_regrouped :
    (∀ a b c : LinkedParser V W, evalParser setting call (.sequence (.sequence a b) c) =
      evalParser setting call (.sequence a (.sequence b c))) ∧
    (∀ a b c : LinkedParser V W, evalParser setting call (.alternative (.alternative a b) c) =
      evalParser setting call (.alternative a (.alternative b c))) ∧
    (∀ b : Bracketing (LinkedParser V W), evalParser setting call (b.build .sequence) =
      evalParser setting call (.seq b.parts)) ∧
    (∀ b : Bracketing (LinkedParser V W), evalParser setting call (b.build .alternative) =
      evalParser setting call (.choice b.parts)) ∧
    ∀ p : LinkedParser V W, evalParser setting call p.bracketedRight = evalParser setting call p ∧
      p.bracketedRight.render = p.render := by
  refine ⟨?pairs, ?choices, ?sequences, ?lists, ?trees⟩
  case pairs =>
    intro a b c
    simp only [evalParser]
    exact Step.sequence_assoc _ _ _ _
  case choices =>
    intro a b c
    simp only [evalParser]
    exact Step.alternative_assoc _ _ _
  case sequences =>
    intro b
    exact evalParser_of_bracketedRight_eq setting call (Parser.bracketedRight_build_sequence b)
  case lists =>
    intro b
    exact evalParser_of_bracketedRight_eq setting call (Parser.bracketedRight_build_alternative b)
  case trees =>
    intro p
    exact ⟨evalParser_bracketedRight setting call p, Parser.render_bracketedRight p⟩

end AttrGrammar.Parse

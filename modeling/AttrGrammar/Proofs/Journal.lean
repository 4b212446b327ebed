import AttrGrammar.Parse.Eval

/-! The journal of a run. While a tree is evaluated, the calls in it run rules, and some of these
return values. The journal lists the calls that have hit and returned a value, in the order in which
they were made, whatever becomes of what was read. To tell it, each way to build a parser is followed
once more with steps that carry their journals. Where one step comes after another, the second journal
is that of the state in which the first one ended, so the journal follows the very run it is about;
nothing but a call adds to it, and without the journals a tree means the step that it always means. -/

namespace AttrGrammar.Parse
open Text Scan Peg

variable {V W α β : Type}

/-- A step, with the values that calls return while it runs from a state, each under the name of the
call. -/
structure Journaled (V W α : Type) where
  step : Step V W α
  journal : State V W → List (String × V)

namespace Journaled

/-- A step in which no call of the tree is made. -/
def plain (x : Step V W α) : Journaled V W α := ⟨x, fun _ => []⟩

/-- One step after another, which goes on from the state in which the first one has ended. -/
def andThen (x : Journaled V W α) (f : α → Journaled V W β) : Journaled V W β where
  step := x.step >>= fun a => (f a).step
  journal s := x.journal s ++ match x.step s with
    | .ok a t => (f a).journal t
    | .error _ _ => []

instance : Monad (Journaled V W) where
  pure a := plain (pure a)
  bind := andThen

open Step (place offset rewind missAt matchedSince)

def keywordList (setting : Setting V W) (selector : Journaled V W Match) (words : List String) :
    Journaled V W Match := do
  let start ← plain place
  let matched ← selector
  if matched.isHit then
    let text := setting.source.textBetween start (← plain place)
    if toString text ∈ words then return matched else plain (missAt start)
  else return matched

def sequence (skip : Step V W Unit) (left right : Journaled V W Match) : Journaled V W Match := do
  let start ← plain place
  if (← left).isHit then
    plain skip
    if (← right).isHit then plain (matchedSince start) else plain (missAt start)
  else plain (missAt start)

def alternative (left right : Journaled V W Match) : Journaled V W Match := do
  let start ← plain place
  let matched ← left
  if matched.isHit then return matched
  plain (rewind start)
  let matched ← right
  if matched.isHit then return matched else plain (missAt start)

def optional (body : Journaled V W Match) : Journaled V W Match := do
  let start ← plain place
  let matched ← body
  if matched.isHit then return matched
  plain (rewind start)
  return .hit 0

def repeatMany (skip : Step V W Unit) (body : Journaled V W Match) :
    Nat → Nat → Journaled V W Nat
  | 0, _ => plain Step.exhausted
  | fuel + 1, count => do
    let round ← plain place
    plain (Step.skipBefore skip count)
    let before ← plain offset
    let matched ← body
    if !matched.isHit || (← plain offset) = before then
      plain (rewind round)
      return if matched.isHit then count + 1 else count
    else repeatMany skip body fuel (count + 1)

def repeated (setting : Setting V W) (skip : Step V W Unit) (body : Journaled V W Match)
    (least : Nat) : Journaled V W Match := do
  let start ← plain place
  let count ← repeatMany skip body (Step.rounds setting start) 0
  if count < least then plain (missAt start) else plain (matchedSince start)

def difference (left right : Journaled V W Match) : Journaled V W Match := do
  let start ← plain place
  let matched ← left
  if matched.isHit then
    let stop ← plain place
    plain (rewind start)
    let excluded ← right
    if excluded.isHit && stop.offset ≤ (← plain offset) then plain (missAt start)
    else
      plain (rewind stop)
      return matched
  else return matched

def exclusiveOr (left right : Journaled V W Match) : Journaled V W Match := do
  let start ← plain place
  let leftMatch ← left
  let leftStop ← plain place
  plain (rewind start)
  let rightMatch ← right
  match leftMatch.isHit, rightMatch.isHit with
  | true, false =>
    plain (rewind leftStop)
    return leftMatch
  | false, true => return rightMatch
  | _, _ => plain (missAt start)

def intersection (left right : Journaled V W Match) : Journaled V W Match := do
  let start ← plain place
  let leftMatch ← left
  if leftMatch.isHit then
    let stop ← plain offset
    plain (rewind start)
    let rightMatch ← right
    if rightMatch.isHit && (← plain offset) = stop then return leftMatch else plain (missAt start)
  else return leftMatch

def listTail (skip : Step V W Unit) (element separator : Journaled V W Match) :
    Nat → Journaled V W Unit
  | 0 => plain Step.exhausted
  | fuel + 1 => do
    let round ← plain place
    plain skip
    if (← separator).isHit then
      plain skip
      if (← element).isHit then
        if (← plain offset) = round.offset then return
        listTail skip element separator fuel
      else plain (rewind round)
    else plain (rewind round)

def list (setting : Setting V W) (skip : Step V W Unit) (element separator : Journaled V W Match) :
    Journaled V W Match := do
  let start ← plain place
  if (← element).isHit then
    listTail skip element separator (Step.rounds setting start)
    plain (matchedSince start)
  else return .miss

def inToken (body : Journaled V W α) : Journaled V W α where
  step := Step.inToken body.step
  journal s := body.journal { s with scanner := s.scanner.beginToken }

def orElse (body : Journaled V W Match) (otherwise : Position → Step V W Match) :
    Journaled V W Match := do
  let start ← plain place
  let matched ← body
  if matched.isHit then return matched else plain (otherwise start)

def action (setting : Setting V W) (run : ActionContext V W → ActionContext V W)
    (body : Journaled V W Match) : Journaled V W Match := do
  let start ← plain place
  let matched ← body
  if matched.isHit then plain (Step.act setting run start matched) else return matched

/-- The part of a call before anything is stored: the arguments are pushed, and the rule runs. -/
def called (rule : Rule V W) (args : List (Argument V)) (call : Step V W Match) :
    Step V W Match := do
  Step.pushArguments rule 0 args
  call

/-- A call that hits adds the value that its rule returns, if it is one that returns a value: that is
the value on top of the stack when the rule has ended. -/
def nonterminal (rule : Rule V W) (instanceName : String) (args : List (Argument V))
    (call : Step V W Match) : Journaled V W Match where
  step := Step.nonterminal rule instanceName args call
  journal s :=
    match called rule args call s with
    | .ok (.hit _) t => if rule.hasValue then t.stack.peek?.toList.map (instanceName, ·) else []
    | _ => []

end Journaled

/-- The step that a tree means, with its journal. -/
def journaled (setting : Setting V W) (call : RuleId → Step V W Match) :
    LinkedParser V W → Journaled V W Match
  | .keywordList selector words => .keywordList setting (journaled setting call selector) words
  | .sequence l r =>
    .sequence (.skip setting call) (journaled setting call l) (journaled setting call r)
  | .alternative l r => .alternative (journaled setting call l) (journaled setting call r)
  | .optional body => .optional (journaled setting call body)
  | .star body => .repeated setting (.skip setting call) (journaled setting call body) 0
  | .plus body => .repeated setting (.skip setting call) (journaled setting call body) 1
  | .difference l r => .difference (journaled setting call l) (journaled setting call r)
  | .exclusiveOr l r => .exclusiveOr (journaled setting call l) (journaled setting call r)
  | .intersection l r => .intersection (journaled setting call l) (journaled setting call r)
  | .list element separator =>
    .list setting (.skip setting call) (journaled setting call element)
      (journaled setting call separator)
  | .grouping body => journaled setting call body
  | .token body => .inToken (journaled setting call body)
  | .expectation body =>
    .orElse (journaled setting call body) fun start =>
      .failExpectingHere setting body.render start
  | .action action body => .action setting action.run (journaled setting call body)
  | .nonterminal rule instanceName args =>
    match setting.rules[rule.id.index]? with
    | some target => .nonterminal target instanceName args (call rule.id)
    | none => .plain (.fail (.unlinked rule.name))
  | p => .plain (evalParser setting call p)

namespace Journaled

/-! ### The steps are those of the parse -/

@[simp]
theorem step_plain (x : Step V W α) : (plain x).step = x := rfl

@[simp]
theorem step_pure (a : α) : (pure a : Journaled V W α).step = pure a := rfl

@[simp]
theorem step_bind (x : Journaled V W α) (f : α → Journaled V W β) :
    (x >>= f).step = x.step >>= fun a => (f a).step := rfl

@[simp]
theorem step_ite {c : Prop} [Decidable c] (x y : Journaled V W α) :
    (if c then x else y).step = if c then x.step else y.step := by
  split <;> rfl

theorem journal_bind_of_ok {x : Journaled V W α} {s t : State V W} {a : α}
    (h : x.step s = .ok a t) (f : α → Journaled V W β) :
    (x >>= f).journal s = x.journal s ++ (f a).journal t := by
  show x.journal s ++ _ = _
  rw [h]

theorem journal_bind_of_error {x : Journaled V W α} {s t : State V W} {e : Failure}
    (h : x.step s = .error e t) (f : α → Journaled V W β) :
    (x >>= f).journal s = x.journal s := by
  show x.journal s ++ _ = _
  rw [h, List.append_nil]

theorem nonterminal_eq_called (rule : Rule V W) (instanceName : String) (args : List (Argument V))
    (call : Step V W Match) : Step.nonterminal rule instanceName args call = (do
      let matched ← called rule args call
      if matched.isHit && rule.hasValue then
        let v ← Step.pop rule
        Step.modifyFrame (·.setInstance instanceName v)
      return matched) := by
  simp only [Step.nonterminal, called, bind_assoc]

variable (setting : Setting V W) (skip : Step V W Unit) (x y : Journaled V W Match)

theorem step_keywordList (words : List String) :
    (keywordList setting x words).step = Step.keywordList setting x.step words := by
  simp [keywordList, Step.keywordList]

theorem step_sequence : (sequence skip x y).step = Step.sequence skip x.step y.step := by
  simp [sequence, Step.sequence]

theorem step_alternative : (alternative x y).step = Step.alternative x.step y.step := by
  simp [alternative, Step.alternative]

theorem step_optional : (optional x).step = Step.optional x.step := by
  simp [optional, Step.optional]

theorem step_repeatMany (fuel count : Nat) :
    (repeatMany skip x fuel count).step = Step.repeatMany skip x.step fuel count := by
  induction fuel generalizing count with
  | zero => rfl
  | succ fuel ih => simp [repeatMany, Step.repeatMany, ih]

theorem step_repeated (least : Nat) :
    (repeated setting skip x least).step = Step.repeated setting skip x.step least := by
  simp [repeated, Step.repeated, step_repeatMany]

theorem step_difference : (difference x y).step = Step.difference x.step y.step := by
  simp [difference, Step.difference]

theorem step_exclusiveOr : (exclusiveOr x y).step = Step.exclusiveOr x.step y.step := by
  simp only [exclusiveOr, Step.exclusiveOr, step_bind, step_plain]
  refine bind_congr fun start => bind_congr fun leftMatch => bind_congr fun leftStop =>
    bind_congr fun _ => bind_congr fun rightMatch => ?_
  cases leftMatch.isHit <;> cases rightMatch.isHit <;> rfl

theorem step_intersection : (intersection x y).step = Step.intersection x.step y.step := by
  simp [intersection, Step.intersection]

theorem step_listTail (fuel : Nat) :
    (listTail skip x y fuel).step = Step.listTail skip x.step y.step fuel := by
  induction fuel with
  | zero => rfl
  | succ fuel ih => simp [listTail, Step.listTail, ih]

theorem step_list : (list setting skip x y).step = Step.list setting skip x.step y.step := by
  simp [list, Step.list, step_listTail]

theorem step_orElse (otherwise : Position → Step V W Match) :
    (orElse x otherwise).step = Step.orElse x.step otherwise := by
  simp [orElse, Step.orElse]

theorem step_action (run : ActionContext V W → ActionContext V W) :
    (action setting run x).step = Step.action setting run x.step := by
  simp [action, Step.action]

end Journaled

/-- Without its journal the step is the one that the tree means. -/
theorem journaled_step (setting : Setting V W) (call : RuleId → Step V W Match)
    (p : LinkedParser V W) : (journaled setting call p).step = evalParser setting call p := by
  induction p with
  | keywordList selector words ih =>
      rw [journaled, Journaled.step_keywordList, ih, evalParser]
  | sequence l r ihl ihr => rw [journaled, Journaled.step_sequence, ihl, ihr, evalParser]
  | alternative l r ihl ihr => rw [journaled, Journaled.step_alternative, ihl, ihr, evalParser]
  | optional body ih => rw [journaled, Journaled.step_optional, ih, evalParser]
  | star body ih | plus body ih => rw [journaled, Journaled.step_repeated, ih, evalParser]
  | difference l r ihl ihr => rw [journaled, Journaled.step_difference, ihl, ihr, evalParser]
  | exclusiveOr l r ihl ihr => rw [journaled, Journaled.step_exclusiveOr, ihl, ihr, evalParser]
  | intersection l r ihl ihr => rw [journaled, Journaled.step_intersection, ihl, ihr, evalParser]
  | list element separator ihe ihs => rw [journaled, Journaled.step_list, ihe, ihs, evalParser]
  | grouping body ih => exact ih
  | token body ih => rw [journaled, Journaled.inToken, ih, evalParser]
  | expectation body ih => rw [journaled, Journaled.step_orElse, ih, evalParser]
  | action action body ih => rw [journaled, Journaled.step_action, ih, evalParser]
  | nonterminal rule instanceName args =>
      rw [journaled, evalParser]
      cases setting.rules[rule.id.index]? <;> rfl
  | _ => rfl

end AttrGrammar.Parse

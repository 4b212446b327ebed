import AttrGrammar.Parse.Combinator

/-! Activations. One begins when a rule is called and ends with a hit, a miss or an error; in each
case it is counted, noted and traced as begun and as ended. While the skip rule runs activations are
counted but neither noted nor traced. -/

namespace AttrGrammar.Parse
open Text Scan Peg

namespace Step

variable {V W : Type}

/-- Opens an activation, unless too many are open already. -/
def enter (setting : Setting V W) (rule : Rule V W) : Step V W Unit := do
  if setting.maxDepth > 0 && setting.maxDepth ≤ (← get).depth then
    fail (.recursionLimitExceeded rule.fullName setting.maxDepth
      (setting.location ((← get).scanner.currentSpan setting.source)))
  modify fun s => { s with depth := s.depth + 1 }
  unless (← get).scanner.skipping do
    let here ← place
    note (.entered rule.fullName here)
    trace (·.beginRule rule.name)
    trace (·.tryInput (setting.source.textFrom here))

/-- Closes an activation that began at a place and ended with a match. -/
def leave (setting : Setting V W) (rule : Rule V W) (start : Position) (matched : Match) :
    Step V W Unit := do
  modify fun s => { s with depth := s.depth - 1 }
  unless (← get).scanner.skipping do
    let here ← place
    note (.left rule.fullName here matched.isHit)
    if matched.isHit then trace (·.success (setting.source.textBetween start here))
    else trace (·.fail)
    trace (·.endRule rule.name)

/-- Runs the body of an activation and closes it. An error of the body stays the error of the
activation, whether or not the trace can be closed. -/
def closing (setting : Setting V W) (rule : Rule V W) (start : Position) (body : Step V W Match) :
    Step V W Match := fun s =>
  match body s with
  | .ok matched s => (do leave setting rule start matched; return matched) s
  | .error e s =>
    match leave setting rule start .miss s with
    | .ok _ s => .error e s
    | .error _ s => .error e { s with notices := .traceUnclosed rule.fullName :: s.notices }

/-- Takes as many values as a rule inherits from the stack, and puts those already taken behind
them. -/
def popArguments (rule : Rule V W) : Nat → List V → Step V W (List V)
  | 0, taken => return taken
  | n + 1, taken => do popArguments rule n ((← pop rule) :: taken)

/-- Runs the tree of a rule in a frame of its own. The values inherited are taken from the stack,
and after a hit the value returned is put there. -/
def evaluate (rule : Rule V W) (start : Position) (tree : Step V W Match) : Step V W Match :=
  inFrame (.ofLocals rule.locals) do
    let values ← popArguments rule rule.inherited.length []
    modifyFrame (·.bindInherited rule.inherited values)
    if (← tree).isHit then
      if rule.hasValue then
        let (v, frame) := (← get).frame.takeValue
        modifyFrame fun _ => frame
        match v with
        | some v => push v
        | none => fail (.missingRuleValue rule.fullName)
      matchedSince start
    else missAt start

/-- One activation of a rule whose tree means the given step. -/
def activate (setting : Setting V W) (rule : Rule V W) (tree : Step V W Match) :
    Step V W Match := do
  enter setting rule
  let start ← place
  closing setting rule start (evaluate rule start tree)

/-- Runs the skip rule if it applies here. The values it pushes are dropped. -/
def skip (setting : Setting V W) (call : RuleId → Step V W Match) : Step V W Unit := do
  match (← get).scanner.activeSkip setting.skipRule with
  | none => return
  | some id =>
    let start ← place
    let height ← height
    let matched ← inSkip (call id)
    unless matched.isHit do rewind start
    dropAbove height

end Step

end AttrGrammar.Parse

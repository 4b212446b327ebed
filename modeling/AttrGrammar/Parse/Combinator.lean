import AttrGrammar.Parse.Step

/-! The meaning of each way to build a parser, in terms of the steps that its parts mean. A step
that misses leaves the scanner where it was. A skip step is passed in where the skip rule may run
between parts. -/

namespace AttrGrammar.Parse
open Text Scan Peg

namespace Step

variable {V W : Type}

def scanOne (setting : Setting V W) (accept : Char → Bool) : Step V W Match := do
  match (← get).scanner.cursor.peek? setting.source.text with
  | some c =>
    if accept c then
      scan (.mapCursor (·.advance setting.source.text))
      return .hit 1
    else return .miss
  | none => return .miss

def atEnd (setting : Setting V W) : Step V W Match :=
  return if (← get).scanner.cursor.atEnd setting.source.text then .hit 0 else .miss

def seesWord (setting : Setting V W) (word : List Char) : Step V W Bool :=
  return (← get).scanner.cursor.startsWith setting.source.text word

def literal (setting : Setting V W) (word : List Char) : Step V W Match := do
  if ← seesWord setting word then
    scan (.mapCursor (·.advanceBy setting.source.text word.length))
    return .hit word.length
  else return .miss

/-- Reads a word unless `goesOn` finds that it goes on behind its end. What that test reads is given
back, and so are the values it pushes. -/
def keyword (setting : Setting V W) (word : List Char) (goesOn : Step V W Bool) :
    Step V W Match := do
  if ← seesWord setting word then
    let start ← place
    scan (.mapCursor (·.advanceBy setting.source.text word.length))
    if ← goesOn then missAt start else return .hit word.length
  else return .miss

def seesIdCont (setting : Setting V W) : Step V W Bool :=
  return ((← get).scanner.cursor.peek? setting.source.text).any isIdCont

/-- Whether a step hits here, without reading anything. -/
def lookAhead (body : Step V W Match) : Step V W Bool := do
  let after ← place
  let height ← height
  let matched ← body
  dropAbove height
  rewind after
  return matched.isHit

def keywordList (setting : Setting V W) (selector : Step V W Match) (words : List String) :
    Step V W Match := do
  let start ← place
  let matched ← selector
  if matched.isHit then
    let text := setting.source.textBetween start (← place)
    if toString text ∈ words then return matched else missAt start
  else return matched

/-- One step after the other, with a skip in between. -/
def sequence (skip : Step V W Unit) (left right : Step V W Match) : Step V W Match := do
  let start ← place
  if (← left).isHit then
    skip
    if (← right).isHit then matchedSince start else missAt start
  else missAt start

def alternative (left right : Step V W Match) : Step V W Match := do
  let start ← place
  let matched ← left
  if matched.isHit then return matched
  rewind start
  let matched ← right
  if matched.isHit then return matched else missAt start

def optional (body : Step V W Match) : Step V W Match := do
  let start ← place
  let matched ← body
  if matched.isHit then return matched
  rewind start
  return .hit 0

/-- The skip before a round of a repetition; the first round has none. -/
def skipBefore (skip : Step V W Unit) (count : Nat) : Step V W Unit :=
  if count > 0 then skip else pure ()

/-- Repeats a step until it misses or reads nothing, and tells how often it hit. A round that ends
the repetition is given back together with the skip before it. -/
def repeatMany (skip : Step V W Unit) (body : Step V W Match) : Nat → Nat → Step V W Nat
  | 0, _ => exhausted
  | fuel + 1, count => do
    let round ← place
    skipBefore skip count
    let before ← offset
    let matched ← body
    if !matched.isHit || (← offset) = before then
      rewind round
      return if matched.isHit then count + 1 else count
    else repeatMany skip body fuel (count + 1)

/-- How many rounds of reading the rest of the input can have, the one that ends it included. -/
def rounds (setting : Setting V W) (start : Position) : Nat :=
  setting.source.text.size - start.offset + 1

def repeated (setting : Setting V W) (skip : Step V W Unit) (body : Step V W Match) (least : Nat) :
    Step V W Match := do
  let start ← place
  let count ← repeatMany skip body (rounds setting start) 0
  if count < least then missAt start else matchedSince start

def difference (left right : Step V W Match) : Step V W Match := do
  let start ← place
  let matched ← left
  if matched.isHit then
    let stop ← place
    rewind start
    let excluded ← right
    if excluded.isHit && stop.offset ≤ (← offset) then missAt start
    else
      rewind stop
      return matched
  else return matched

def exclusiveOr (left right : Step V W Match) : Step V W Match := do
  let start ← place
  let leftMatch ← left
  let leftStop ← place
  rewind start
  let rightMatch ← right
  match leftMatch.isHit, rightMatch.isHit with
  | true, false =>
    rewind leftStop
    return leftMatch
  | false, true => return rightMatch
  | _, _ => missAt start

def intersection (left right : Step V W Match) : Step V W Match := do
  let start ← place
  let leftMatch ← left
  if leftMatch.isHit then
    let stop ← offset
    rewind start
    let rightMatch ← right
    if rightMatch.isHit && (← offset) = stop then return leftMatch else missAt start
  else return leftMatch

/-- Goes on with a list behind an element: separators and elements in turn, until one misses or a
round reads nothing. A round that is not complete is given back. -/
def listTail (skip : Step V W Unit) (element separator : Step V W Match) : Nat → Step V W Unit
  | 0 => exhausted
  | fuel + 1 => do
    let round ← place
    skip
    if (← separator).isHit then
      skip
      if (← element).isHit then
        if (← offset) = round.offset then return
        listTail skip element separator fuel
      else rewind round
    else rewind round

def list (setting : Setting V W) (skip : Step V W Unit) (element separator : Step V W Match) :
    Step V W Match := do
  let start ← place
  if (← element).isHit then
    listTail skip element separator (rounds setting start)
    matchedSince start
  else return .miss

/-- Ends the parse because between two places something expected does not stand. -/
def failExpecting (setting : Setting V W) (expected : String) (first last : Position) :
    Step V W α :=
  fail (.expectation expected (setting.location (setting.source.span first last)))

/-- Ends the parse because something expected does not stand between a place and here. -/
def failExpectingHere (setting : Setting V W) (expected : String) (start : Position) :
    Step V W α := do
  failExpecting setting expected start (← place)

/-- Runs a step, and does something else with its place where it misses. -/
def orElse (body : Step V W Match) (otherwise : Position → Step V W Match) : Step V W Match := do
  let start ← place
  let matched ← body
  if matched.isHit then return matched else otherwise start

/-- Runs an action on what was read since a place, and turns a match into what the action makes of
it. -/
def act (setting : Setting V W) (run : ActionContext V W → ActionContext V W) (start : Position)
    (matched : Match) : Step V W Match := do
  let here ← place
  let span := setting.source.span start here
  let done ← modifyGet fun s =>
    let done := run
      { frame := s.frame, text := setting.source.textBetween start here, span,
        fileName := setting.source.fileName, pass := true, error := none, world := s.world }
    (done, { s with frame := done.frame, world := done.world })
  match done.error with
  | some reason => fail (.exception reason (setting.location span))
  | none => if done.pass then return matched else missAt start

def action (setting : Setting V W) (run : ActionContext V W → ActionContext V W)
    (body : Step V W Match) : Step V W Match := do
  let start ← place
  let matched ← body
  if matched.isHit then act setting run start matched else return matched

/-- Computes arguments for a rule in the present frame and pushes them, the first one first. -/
def pushArguments (rule : Rule V W) : Nat → List (Argument V) → Step V W Unit
  | _, [] => return
  | index, argument :: rest => do
    match argument (← get).frame with
    | some v =>
      push v
      pushArguments rule (index + 1) rest
    | none => fail (.missingArgument rule.fullName index)

/-- Calls a rule with arguments and stores its value in the present frame. -/
def nonterminal (rule : Rule V W) (instanceName : String) (args : List (Argument V))
    (body : Step V W Match) : Step V W Match := do
  pushArguments rule 0 args
  let matched ← body
  if matched.isHit && rule.hasValue then
    let v ← pop rule
    modifyFrame (·.setInstance instanceName v)
  return matched

end Step

end AttrGrammar.Parse

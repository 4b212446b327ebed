import AttrGrammar.Parse.State

/-! Steps, from which parsers are put together. A step that fails leaves its state behind, so what
was read, traced, noted and done by actions up to there can still be told. Each basic step comes
with an equation that says what it answers and what it does to the state. -/

namespace AttrGrammar.Parse
open Text Scan Peg

abbrev Step (V W α : Type) := EStateM Failure (State V W) α

namespace Step

variable {V W α β : Type}

@[simp]
theorem pure_apply (a : α) (s : State V W) : (pure a : Step V W α) s = .ok a s := rfl

@[simp]
theorem bind_apply (x : Step V W α) (f : α → Step V W β) (s : State V W) :
    (x >>= f) s = match x s with
      | .ok a t => f a t
      | .error e t => .error e t := by
  change EStateM.bind x f s = _
  unfold EStateM.bind
  cases x s <;> rfl

theorem get_bind_apply (f : State V W → Step V W β) (s : State V W) : (get >>= f) s = f s s := rfl

def fail (e : ParseError) : Step V W α := throw (.error e)

@[simp]
theorem fail_apply (e : ParseError) (s : State V W) :
    (fail e : Step V W α) s = .error (.error e) s := rfl

/-- Breaks off because there is no fuel left. -/
def exhausted : Step V W α := throw .outOfFuel

@[simp]
theorem exhausted_apply (s : State V W) : (exhausted : Step V W α) s = .error .outOfFuel s := rfl

def scan (f : Scanner → Scanner) : Step V W Unit :=
  modify fun s => { s with scanner := f s.scanner }

@[simp]
theorem scan_apply (f : Scanner → Scanner) (s : State V W) :
    scan f s = .ok () { s with scanner := f s.scanner } := rfl

def place : Step V W Position := return (← get).scanner.position

@[simp]
theorem place_apply (s : State V W) : place s = .ok s.scanner.position s := rfl

def offset : Step V W Nat := return (← get).scanner.offset

@[simp]
theorem offset_apply (s : State V W) : offset s = .ok s.scanner.offset s := rfl

def rewind (place : Position) : Step V W Unit := scan (.mapCursor (·.restore place))

@[simp]
theorem rewind_apply (p : Position) (s : State V W) :
    rewind p s = .ok () { s with scanner := s.scanner.mapCursor (·.restore p) } := rfl

/-- A hit of everything read since a place. -/
def matchedSince (start : Position) : Step V W Match := return .hit ((← offset) - start.offset)

@[simp]
theorem matchedSince_apply (start : Position) (s : State V W) :
    matchedSince start s = .ok (.hit (s.scanner.offset - start.offset)) s := rfl

/-- Goes back to a place and misses. -/
def missAt (start : Position) : Step V W Match := do
  rewind start
  return .miss

@[simp]
theorem missAt_apply (p : Position) (s : State V W) :
    missAt p s = .ok .miss { s with scanner := s.scanner.mapCursor (·.restore p) } := rfl

def note (n : Notice) : Step V W Unit := modify fun s => { s with notices := n :: s.notices }

@[simp]
theorem note_apply (n : Notice) (s : State V W) :
    note n s = .ok () { s with notices := n :: s.notices } := rfl

def push (v : V) : Step V W Unit := modify fun s => { s with stack := s.stack.push v }

@[simp]
theorem push_apply (v : V) (s : State V W) :
    push v s = .ok () { s with stack := s.stack.push v } := rfl

/-- Takes the last value pushed, on behalf of a rule. -/
def pop (rule : Rule V W) : Step V W V := do
  let (v, stack) := (← get).stack.pop?
  modify fun s => { s with stack }
  match v with
  | some v => return v
  | none => fail (.valueStackUnderflow rule.fullName)

def height : Step V W Nat := return (← get).stack.size

@[simp]
theorem height_apply (s : State V W) : height s = .ok s.stack.size s := rfl

/-- Drops the values above a height. -/
def dropAbove (height : Nat) : Step V W Unit :=
  modify fun s => { s with stack := s.stack.truncate height }

@[simp]
theorem dropAbove_apply (height : Nat) (s : State V W) :
    dropAbove height s = .ok () { s with stack := s.stack.truncate height } := rfl

def modifyFrame (f : Frame V → Frame V) : Step V W Unit :=
  modify fun s => { s with frame := f s.frame }

@[simp]
theorem modifyFrame_apply (f : Frame V → Frame V) (s : State V W) :
    modifyFrame f s = .ok () { s with frame := f s.frame } := rfl

/-- Runs a step between two changes of the state; the second is made however the step ends. -/
def between (before after : State V W → State V W) (body : Step V W α) : Step V W α := fun s =>
  match body (before s) with
  | .ok a s => .ok a (after s)
  | .error e s => .error e (after s)

def inToken (body : Step V W α) : Step V W α :=
  between (fun s => { s with scanner := s.scanner.beginToken })
    (fun s => { s with scanner := s.scanner.endToken }) body

def inSkip (body : Step V W α) : Step V W α :=
  between (fun s => { s with scanner := s.scanner.beginSkip })
    (fun s => { s with scanner := s.scanner.endSkip }) body

/-- Runs a step with a frame of its own; afterwards the frame of the caller is in place again. -/
def inFrame (frame : Frame V) (body : Step V W α) : Step V W α := fun s =>
  between (fun s => { s with frame }) (fun t => { t with frame := s.frame }) body s

def trace (write : TraceLog → Bool × TraceLog) : Step V W Unit := do
  match (← get).scanner.log with
  | none => return
  | some log =>
    let (done, log) := write log
    scan fun s => { s with log := some log }
    unless done do fail .log

end Step

end AttrGrammar.Parse

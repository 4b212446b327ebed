import AttrGrammar.Proofs.Congruence
import AttrGrammar.Parse.Run

/-! Relations between two parses. What is done on the way into a rule and out of it, with arguments,
values and frames, are again steps that most relations keep. Two things are left to the relation
itself: the trace, and the count of open activations, which is where the nesting limit is looked at.
So a relation has to be shown for the opening and the closing of an activation only, and holds then
of every tree. -/

namespace AttrGrammar.Parse
open Text Scan Peg

variable {V W α β : Type}

/-- The state with another trace. -/
def State.withLog (s : State V W) (log : Option TraceLog) : State V W :=
  { s with scanner := { s.scanner with log } }

namespace Step

/-- A function of the state that does not look at the trace. -/
def Traceless (f : State V W → β) : Prop := ∀ s log, f (s.withLog log) = f s

/-- A change of the state that neither looks at the trace nor touches it or the count of open
activations, and that stays among the places that `At` holds of. -/
structure Aloof (At : Position → Prop) (f : State V W → State V W) : Prop where
  log : ∀ s log, f (s.withLog log) = (f s).withLog log
  depth : ∀ s, (f s).depth = s.depth
  place : ∀ s, At s.scanner.position → At (f s).scanner.position

/-- A relation that the basic steps keep, those on the stack and on frames included, as long as they
go to places that `At` holds of. -/
structure CallCongruence (At : Position → Prop) (setting setting' : Setting V W)
    (R : (α : Type) → Step V W α → Step V W α → Prop) : Prop where
  source : setting'.source = setting.source
  rules : setting'.rules = setting.rules
  skipRule : setting'.skipRule = setting.skipRule
  advance : ∀ c : Cursor, At c.position → At (c.advance setting.source.text).position
  pure : ∀ {α : Type} (a : α), R α (pure a) (pure a)
  bind : ∀ {α β : Type} {x x' : Step V W α} {f f' : α → Step V W β},
    R α x x' → (∀ a, R β (f a) (f' a)) → R β (x >>= f) (x' >>= f')
  look : ∀ {α : Type} {f f' : State V W → Step V W α},
    Traceless f → Traceless f' → (∀ s, R α (f s) (f' s)) → R α (get >>= f) (get >>= f')
  atPlace : ∀ {α : Type} {f f' : Position → Step V W α},
    (∀ p, At p → R α (f p) (f' p)) → R α (place >>= f) (place >>= f')
  update : ∀ {f : State V W → State V W}, Aloof At f → R Unit (modify f) (modify f)
  around : ∀ {α : Type} {before : State V W → State V W} {after : State V W → State V W → State V W}
    {x x' : Step V W α}, Aloof At before → (∀ s, Aloof At (after s)) → Traceless after →
    R α x x' → R α (fun s => between before (after s) x s) fun s => between before (after s) x' s
  fail : ∀ {α : Type} (e : ParseError), R α (fail e) (fail e)

theorem modifyGet_eq (f : State V W → α × State V W) :
    (modifyGet f : Step V W α) = (do
      let s ← get
      modify fun t => (f t).2
      return (f s).1) := rfl

theorem aloof_mapCursor {At : Position → Prop} {f : Cursor → Cursor}
    (hf : ∀ c, At c.position → At (f c).position) :
    Aloof At fun s : State V W => { s with scanner := s.scanner.mapCursor f } :=
  ⟨fun _ _ => rfl, fun _ => rfl, fun s => hf s.scanner.cursor⟩

namespace CallCongruence

variable {At : Position → Prop} {setting setting' : Setting V W}
  {R : (α : Type) → Step V W α → Step V W α → Prop} {start : Position}

theorem advanceBy (h : CallCongruence At setting setting' R) (n : Nat) (c : Cursor)
    (hc : At c.position) : At (c.advanceBy setting.source.text n).position := by
  induction n generalizing c with
  | zero => exact hc
  | succ n ih =>
      rw [Cursor.advanceBy]
      split
      · exact hc
      · exact ih _ (h.advance c hc)

theorem location_eq (h : CallCongruence At setting setting' R) :
    setting'.location = setting.location := by
  funext span
  rw [Setting.location, Setting.location, h.source]

/-! ### The stack and the frame -/

theorem modifyGet (h : CallCongruence At setting setting' R) {f : State V W → α × State V W}
    (hvalue : Traceless fun s => (f s).1) (hstate : Aloof At fun s => (f s).2) :
    R α (modifyGet f) (modifyGet f) := by
  rw [modifyGet_eq]
  have hlook : Traceless fun s => (do
      modify fun t => (f t).2
      return (f s).1 : Step V W α) := fun s log => by
    have hs : (f (s.withLog log)).1 = (f s).1 := hvalue s log
    dsimp only
    rw [hs]
  exact h.look hlook hlook fun s => h.bind (h.update hstate) fun _ => h.pure _

theorem note (h : CallCongruence At setting setting' R) (notice : Notice) :
    R Unit (note notice) (note notice) :=
  h.update ⟨fun _ _ => rfl, fun _ => rfl, fun _ hs => hs⟩

theorem push (h : CallCongruence At setting setting' R) (v : V) : R Unit (push v) (push v) :=
  h.update ⟨fun _ _ => rfl, fun _ => rfl, fun _ hs => hs⟩

theorem modifyFrame (h : CallCongruence At setting setting' R) (f : Frame V → Frame V) :
    R Unit (modifyFrame f) (modifyFrame f) :=
  h.update ⟨fun _ _ => rfl, fun _ => rfl, fun _ hs => hs⟩

theorem dropAbove (h : CallCongruence At setting setting' R) (height : Nat) :
    R Unit (dropAbove height) (dropAbove height) :=
  h.update ⟨fun _ _ => rfl, fun _ => rfl, fun _ hs => hs⟩

theorem height (h : CallCongruence At setting setting' R) : R Nat height height :=
  h.look (fun _ _ => rfl) (fun _ _ => rfl) fun _ => h.pure _

theorem pop (h : CallCongruence At setting setting' R) (rule : Rule V W) :
    R V (pop rule) (pop rule) := by
  apply h.look (fun _ _ => rfl) fun _ _ => rfl
  intro s
  refine h.bind (h.update ⟨fun _ _ => rfl, fun _ => rfl, fun _ hs => hs⟩) fun _ => ?_
  split
  · exact h.pure _
  · exact h.fail _

theorem pushAll (h : CallCongruence At setting setting' R) (args : List V) :
    R Unit (args.forM Step.push) (args.forM Step.push) := by
  induction args with
  | nil => exact h.pure ()
  | cons v args ih => exact h.bind (h.push v) fun _ => ih

theorem pushArguments (h : CallCongruence At setting setting' R) (rule : Rule V W) (index : Nat)
    (args : List (Argument V)) :
    R Unit (pushArguments rule index args) (pushArguments rule index args) := by
  induction args generalizing index with
  | nil => exact h.pure ()
  | cons argument rest ih =>
      apply h.look (fun _ _ => rfl) fun _ _ => rfl
      intro s
      split
      · exact h.bind (h.push _) fun _ => ih (index + 1)
      · exact h.fail _

theorem popArguments (h : CallCongruence At setting setting' R) (rule : Rule V W) (n : Nat)
    (taken : List V) : R (List V) (popArguments rule n taken) (popArguments rule n taken) := by
  induction n generalizing taken with
  | zero => exact h.pure _
  | succ n ih => exact h.bind (h.pop rule) fun v => ih (v :: taken)

theorem inToken (h : CallCongruence At setting setting' R) {x x' : Step V W Match}
    (hx : R Match x x') : R Match (inToken x) (inToken x') :=
  h.around ⟨fun _ _ => rfl, fun _ => rfl, fun _ hs => hs⟩
    (fun _ => ⟨fun _ _ => rfl, fun _ => rfl, fun _ ht => ht⟩) (fun _ _ => rfl) hx

theorem inSkip (h : CallCongruence At setting setting' R) {x x' : Step V W Match}
    (hx : R Match x x') : R Match (inSkip x) (inSkip x') :=
  h.around ⟨fun _ _ => rfl, fun _ => rfl, fun _ hs => hs⟩
    (fun _ => ⟨fun _ _ => rfl, fun _ => rfl, fun _ ht => ht⟩) (fun _ _ => rfl) hx

theorem inFrame (h : CallCongruence At setting setting' R) (frame : Frame V)
    {x x' : Step V W Match} (hx : R Match x x') : R Match (inFrame frame x) (inFrame frame x') :=
  h.around ⟨fun _ _ => rfl, fun _ => rfl, fun _ hs => hs⟩
    (fun _ => ⟨fun _ _ => rfl, fun _ => rfl, fun _ ht => ht⟩) (fun _ _ => rfl) hx

/-- Where the calls are related, the relation is one that trees keep. -/
theorem onTrees (h : CallCongruence At setting setting' R) :
    CongruenceOn At setting setting' R where
  source := h.source
  pure := h.pure
  bind := h.bind
  look hf hs := h.look (fun _ _ => hf _ _ rfl) (fun _ _ => hf _ _ rfl) hs
  atPlace := h.atPlace
  advance := h.update (aloof_mapCursor h.advance)
  advanceBy n := h.update (aloof_mapCursor (h.advanceBy n))
  rewind _ hp := h.update (aloof_mapCursor fun _ _ => hp)
  inToken := h.inToken
  failExpecting expected first last := by
    unfold Step.failExpecting
    rw [h.location_eq, h.source]
    exact h.fail _
  act run start m hstart := by
    unfold Step.act
    rw [h.location_eq, h.source]
    refine h.atPlace fun here _ => h.bind (h.modifyGet (fun _ _ => rfl)
      ⟨fun _ _ => rfl, fun _ => rfl, fun _ hs => hs⟩) fun done => ?_
    split
    · exact h.fail _
    · split
      · exact h.pure _
      · exact h.bind (h.update (aloof_mapCursor fun _ _ => hstart)) fun _ => h.pure _

theorem rewind (h : CallCongruence At setting setting' R) (hstart : At start) :
    R Unit (rewind start) (rewind start) :=
  h.onTrees.rewind start hstart

/-! ### Calls -/

variable {call call' : RuleId → Step V W Match}

theorem skip (h : CallCongruence At setting setting' R) (hcall : ∀ id, R Match (call id) (call' id)) :
    R Unit (skip setting call) (skip setting' call') := by
  unfold Step.skip
  rw [h.skipRule]
  apply h.look (fun _ _ => rfl) fun _ _ => rfl
  intro s
  split
  · exact h.pure _
  · next id _ =>
    refine h.atPlace fun start hstart => h.bind h.height fun height =>
      h.bind (h.inSkip (hcall id)) fun m => ?_
    split
    · exact h.dropAbove height
    · exact h.bind (h.rewind hstart) fun _ => h.dropAbove height

theorem lookAhead (h : CallCongruence At setting setting' R) {x x' : Step V W Match}
    (hx : R Match x x') : R Bool (lookAhead x) (lookAhead x') :=
  h.atPlace fun _ hafter => h.bind h.height fun height => h.bind hx fun _ =>
    h.bind (h.dropAbove height) fun _ => h.bind (h.rewind hafter) fun _ => h.pure _

theorem nonterminal (h : CallCongruence At setting setting' R) (rule : Rule V W)
    (instanceName : String) (args : List (Argument V)) {x x' : Step V W Match}
    (hx : R Match x x') :
    R Match (nonterminal rule instanceName args x) (nonterminal rule instanceName args x') := by
  refine h.bind (h.pushArguments rule 0 args) fun _ => h.bind hx fun m => ?_
  split
  · exact h.bind (h.pop rule) fun v => h.bind (h.modifyFrame _) fun _ => h.pure m
  · exact h.pure m

theorem evaluate (h : CallCongruence At setting setting' R) (rule : Rule V W) (hstart : At start)
    {tree tree' : Step V W Match} (htree : R Match tree tree') :
    R Match (evaluate rule start tree) (evaluate rule start tree') := by
  refine h.inFrame _ (h.bind (h.popArguments rule _ []) fun values =>
    h.bind (h.modifyFrame _) fun _ => h.bind htree fun m => ?_)
  split
  · split
    · apply h.look (fun _ _ => rfl) fun _ _ => rfl
      intro s
      refine h.bind (h.modifyFrame _) fun _ => ?_
      dsimp only
      split
      · exact h.bind (h.push _) fun _ => h.onTrees.matchedSince start
      · exact h.bind (h.fail _) fun _ => h.onTrees.matchedSince start
    · exact h.onTrees.matchedSince start
  · exact h.onTrees.missAt hstart

/-- Where calls are related, and loops over related steps, so are the evaluations of a tree. -/
theorem evalParser (h : CallCongruence At setting setting' R)
    (hcall : ∀ id, R Match (call id) (call' id))
    (hrepeated : ∀ (body : LinkedParser V W) (least : Nat),
      R Match (evalParser setting call body) (evalParser setting' call' body) →
      R Match (Step.repeated setting (Step.skip setting call) (evalParser setting call body) least)
        (Step.repeated setting' (Step.skip setting' call') (evalParser setting' call' body) least))
    (hlist : ∀ element separator : LinkedParser V W,
      R Match (evalParser setting call element) (evalParser setting' call' element) →
      R Match (evalParser setting call separator) (evalParser setting' call' separator) →
      R Match
        (Step.list setting (Step.skip setting call) (evalParser setting call element)
          (evalParser setting call separator))
        (Step.list setting' (Step.skip setting' call') (evalParser setting' call' element)
          (evalParser setting' call' separator)))
    (p : LinkedParser V W) :
    R Match (evalParser setting call p) (evalParser setting' call' p) := by
  refine h.onTrees.evalParser call call' (h.skip hcall)
    (fun rule _ => h.lookAhead (hcall rule.id)) (fun rule instanceName args _ => ?_) hrepeated hlist
    p.every_trivial
  rw [Parse.evalParser, Parse.evalParser, h.rules]
  split
  · exact h.nonterminal _ instanceName args (hcall rule.id)
  · exact h.fail _

/-- Where giving up is related to itself, loops need no attention. -/
theorem evalParser_of_exhausted (h : CallCongruence At setting setting' R)
    (hexhausted : ∀ {α : Type}, R α exhausted exhausted)
    (hcall : ∀ id, R Match (call id) (call' id)) (p : LinkedParser V W) :
    R Match (Parse.evalParser setting call p) (Parse.evalParser setting' call' p) :=
  h.evalParser hcall
    (fun _ least hx => h.onTrees.repeated hexhausted (h.skip hcall) hx least)
    (fun _ _ hx hy => h.onTrees.list hexhausted (h.skip hcall) hx hy) p

end CallCongruence

/-! ### Whole parses -/

/-- Passes the trace on. -/
def flush : Step V W Unit := do
  if let some log := (← get).scanner.log then
    unless log.sink.flush do fail .log

/-- Runs the skip rule, the start rule, and after a hit the skip rule again, given what calling a
rule means. -/
def startCalling (setting : Setting V W) (call : RuleId → Step V W Match) (start : RuleId) :
    Step V W Match := do
  skip setting call
  let matched ← call start
  if matched.isHit then
    skip setting call
  return matched

/-- The part of a parse in which rules are evaluated: it begins with the arguments of the start rule
and ends before the trace is passed on. -/
def evaluation (setting : Setting V W) (call : RuleId → Step V W Match) (start : Rule V W)
    (args : List V) : Step V W Match := do
  note (.parsing setting.source.fileName start.fullName setting.source.text.size)
  args.forM push
  startCalling setting call start.id

/-- The end of a parse, from what the start rule has matched. -/
def conclusion (setting : Setting V W) (start : Rule V W) (matched : Match) :
    Step V W (Option V) := do
  let cursor := (← get).scanner.cursor
  if matched.isHit && cursor.atEnd setting.source.text then
    note (.parsed setting.source.fileName)
    if start.hasValue then return (← get).stack.peek? else return none
  else
    note (.stopped setting.source.fileName cursor.farthest)
    failExpecting setting start.info cursor.farthest cursor.farthest

end Step

theorem flushing_eq (body : Step V W α) :
    flushing body = (do
      let result ← body
      Step.flush
      return result) := by
  apply bind_congr
  intro a
  unfold Step.flush
  rw [bind_assoc]
  apply bind_congr
  intro s
  cases s.scanner.log with
  | none => rfl
  | some log =>
      dsimp only
      split <;> rfl

theorem runRule_eq (setting : Setting V W) (fuel : Nat) (start : Rule V W) (args : List V) :
    runRule setting fuel start args = (do
      let matched ← Step.evaluation setting (evalRule setting fuel) start args
      Step.flush
      Step.conclusion setting start matched) := by
  have hstart : runStart setting fuel start.id =
      Step.startCalling setting (evalRule setting fuel) start.id := rfl
  simp only [runRule, hstart, flushing_eq, Step.evaluation, Step.conclusion, bind_assoc, pure_bind]

/-- The start rule of a parse with a grammar, or the error that there is none to run. -/
def startFor (d : Domain V W) (g : Grammar) (setting : Setting V W) (args : List V) :
    Except ParseError (Rule V W) :=
  let length := setting.source.text.size
  if d.config.maxInputLength > 0 && d.config.maxInputLength < length then
    .error (.inputTooLarge length d.config.maxInputLength)
  else
    match g.startRule.bind d.rule? with
    | none =>
      .error (.exception s!"grammar '{g.qualifiedName}' has no start rule"
        (setting.location (.emptyAt setting.source.fileIndex Position.start)))
    | some start =>
      if args.length = start.inherited.length then .ok start
      else .error (.argumentCount start.fullName start.inherited.length args.length)

theorem runGrammar_eq (d : Domain V W) (g : Grammar) (setting : Setting V W) (fuel : Nat)
    (args : List V) :
    runGrammar d g setting fuel args =
      match startFor d g setting args with
      | .ok start => runRule setting fuel start args
      | .error e => Step.fail e := by
  unfold runGrammar startFor
  dsimp only
  split
  · rfl
  · cases g.startRule.bind d.rule? with
    | none => rfl
    | some start =>
        dsimp only
        split <;> rfl

/-- What is reported of a run. -/
def Report.ofRun (r : EStateM.Result Failure (State V W) α) : Report α W :=
  match r with
  | .ok v s => ⟨.ok v, s.scanner.log, s.notices.reverse, s.world⟩
  | .error e s => ⟨.error e, s.scanner.log, s.notices.reverse, s.world⟩

theorem parseWithin_eq (fuel : Nat) (d : Domain V W) (g : Grammar) (text : Buffer)
    (options : Options V) (world : W) :
    parseWithin fuel d g text options world =
      .ofRun (runGrammar d g (settingFor d g text options) fuel options.args
        (.start options.log world)) := by
  unfold parseWithin Report.ofRun
  dsimp only
  split <;> next h => rw [h]

namespace Step.CallCongruence

variable {At : Position → Prop} {setting setting' : Setting V W}
  {R : (α : Type) → Step V W α → Step V W α → Prop} {call call' : RuleId → Step V W Match}

theorem evaluation (h : CallCongruence At setting setting' R)
    (hcall : ∀ id, R Match (call id) (call' id)) (start : Rule V W) (args : List V) :
    R Match (evaluation setting call start args) (evaluation setting' call' start args) := by
  unfold Step.evaluation
  rw [h.source]
  refine h.bind (h.note _) fun _ => h.bind (h.pushAll args) fun _ =>
    h.bind (h.skip hcall) fun _ => h.bind (hcall _) fun m => ?_
  split
  · exact h.bind (h.skip hcall) fun _ => h.pure m
  · exact h.pure m

theorem conclusion (h : CallCongruence At setting setting' R) (start : Rule V W) (m : Match) :
    R (Option V) (conclusion setting start m) (conclusion setting' start m) := by
  unfold Step.conclusion
  rw [h.source]
  apply h.look (fun _ _ => rfl) fun _ _ => rfl
  intro s
  dsimp only
  split
  · apply h.bind (h.note _)
    intro _
    split
    · exact h.look (fun _ _ => rfl) (fun _ _ => rfl) fun _ => h.pure _
    · exact h.pure none
  · exact h.bind (h.note _) fun _ => h.onTrees.failExpecting _ _ _

/-- Two parses are related if passing the trace on is related to itself, and the calls are. -/
theorem runGrammar {d d' : Domain V W} (h : CallCongruence At setting setting' R)
    (hrules : d'.rules = d.rules) (hlength : d'.config.maxInputLength = d.config.maxInputLength)
    {fuel fuel' : Nat} (hcall : ∀ id, R Match (evalRule setting fuel id) (evalRule setting' fuel' id))
    (hflush : R Unit flush flush) (g : Grammar) (args : List V) :
    R (Option V) (runGrammar d g setting fuel args) (runGrammar d' g setting' fuel' args) := by
  have hstartFor : startFor d' g setting' args = startFor d g setting args := by
    unfold startFor Domain.rule?
    rw [h.location_eq, h.source, hrules, hlength]
  rw [runGrammar_eq, runGrammar_eq, hstartFor]
  cases startFor d g setting args with
  | error e => exact h.fail e
  | ok start =>
      dsimp only
      rw [runRule_eq, runRule_eq]
      exact h.bind (h.evaluation hcall start args) fun m => h.bind hflush fun _ =>
        h.conclusion start m

end Step.CallCongruence

end AttrGrammar.Parse

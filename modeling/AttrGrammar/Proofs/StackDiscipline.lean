import AttrGrammar.Parse.Run
import AttrGrammar.Proofs.Congruence
import AttrGrammar.Proofs.Ensures

/-! The value stack is balanced. A caller pushes arguments and the rule it calls pops them; a rule
pushes its value and the caller pops it, and the two agree on how many there are because linking has
counted. So a step owns a number of values on the top of the stack when it begins and when it ends.
It does the same whatever lies below these, and it leaves that as it was. -/

namespace AttrGrammar.Peg

/-- How many values an activation of a rule leaves on the stack. -/
def Rule.results {V W : Type} (rule : Rule V W) (m : Parse.Match) : Nat :=
  if m.isHit && rule.hasValue then 1 else 0

end AttrGrammar.Peg

namespace AttrGrammar.Parse
open Text Scan Peg

variable {V W α β : Type}

/-! ### Values below -/

/-- The state with more values below those on its stack. -/
def State.above (s : State V W) (below : List V) : State V W :=
  { s with stack := ⟨s.stack.values ++ below⟩ }

/-- The state with nothing but some values on its stack. -/
def State.owning (s : State V W) (own : List V) : State V W := { s with stack := ⟨own⟩ }

/-- An ending of a step, with more values below those on its stack. -/
def Ending.above (r : EStateM.Result Failure (State V W) α) (below : List V) :
    EStateM.Result Failure (State V W) α :=
  match r with
  | .ok a t => .ok a (t.above below)
  | .error e t => .error e (t.above below)

/-- A failure that only a rule table put together wrongly can lead to. -/
def Failure.Internal : Failure → Prop
  | .error (.unlinked _) | .error (.valueStackUnderflow _) => True
  | _ => False

theorem truncate_zero (s : ValueStack V) : s.truncate 0 = ⟨[]⟩ :=
  congrArg ValueStack.mk (List.drop_length)

theorem truncate_append (own below : List V) :
    (ValueStack.mk (own ++ below)).truncate below.length = ⟨below⟩ := by
  rw [ValueStack.truncate, ValueStack.size, List.length_append, Nat.add_sub_cancel,
    List.drop_left]

theorem State.above_above (s : State V W) (below lower : List V) :
    (s.above below).above lower = s.above (below ++ lower) := by
  simp only [State.above, List.append_assoc]

theorem State.owning_above {s : State V W} {own below : List V}
    (h : s.stack.values = own ++ below) : (s.owning own).above below = s := by
  rw [State.above, State.owning, ← h]

theorem Ending.above_above (r : EStateM.Result Failure (State V W) α) (below lower : List V) :
    Ending.above (Ending.above r below) lower = Ending.above r (below ++ lower) := by
  cases r <;> simp only [Ending.above, State.above_above]

namespace Step

theorem pop_apply (rule : Rule V W) {s : State V W} {v : V} {rest : List V}
    (h : s.stack.values = v :: rest) : pop rule s = .ok v { s with stack := ⟨rest⟩ } := by
  obtain ⟨scanner, depth, ⟨values⟩, frame, notices, world⟩ := s
  obtain rfl : values = v :: rest := h
  rfl

/-- From a stack of `need` values the step ends with one of as many values as its result `gives`,
and breaks off for no reason that lies in the rule table. With more values below it does the same and
leaves these as they are. -/
structure Framed (need : Nat) (gives : α → Nat) (x : Step V W α) : Prop where
  ends : ∀ s, s.stack.size = need →
    x.Ensures s (fun a t => t.stack.size = gives a) fun e _ => ¬ e.Internal
  above : ∀ s below, s.stack.size = need → x (s.above below) = Ending.above (x s) below

/-- A step that takes nothing from the stack and leaves nothing there. -/
abbrev Neutral (x : Step V W α) : Prop := Framed 0 (fun _ => 0) x

namespace Framed

variable {n k : Nat} {g : α → Nat} {g' : β → Nat} {x : Step V W α} {s t : State V W}

theorem pure {a : α} (h : n = g a) : Framed n g (pure a : Step V W α) :=
  ⟨fun _ hs => hs.trans h, fun _ _ _ => rfl⟩

theorem bind {f : α → Step V W β} (hx : Framed n g x) (hf : ∀ a, Framed (g a) g' (f a)) :
    Framed n g' (x >>= f) := by
  refine ⟨fun s hs => ?_, fun s below hs => ?_⟩
  · rw [ensures_bind]
    exact (hx.ends s hs).imp fun a t ht => (hf a).ends t ht
  · have hends := hx.ends s hs
    rw [bind_apply, bind_apply, hx.above s below hs]
    unfold Ensures at hends
    cases h : x s with
    | error e t => rfl
    | ok a t =>
        rw [h] at hends
        exact (hf a).above t below hends

/-- Looking at the state, but not at its stack. -/
theorem look {f : State V W → Step V W α} (hf : ∀ s below, f (State.above s below) = f s)
    (h : ∀ s, Framed n g (f s)) : Framed n g (get >>= f) := by
  refine ⟨fun s hs => ?_, fun s below hs => ?_⟩
  · rw [ensures_bind]
    exact (h s).ends s hs
  · show f (s.above below) (s.above below) = Ending.above (f s s) below
    rw [hf]
    exact (h s).above s below hs

/-- Changing the state, but not its stack. -/
theorem modifyGet {f : State V W → α × State V W}
    (hf : ∀ s below, f (s.above below) = ((f s).1, (f s).2.above below))
    (hstack : ∀ s, (f s).2.stack = s.stack) : Framed n (fun _ => n) (modifyGet f) := by
  refine ⟨fun s hs => ?_, fun s below _ => ?_⟩
  · rw [ensures_modifyGet, hstack]
    exact hs
  · show EStateM.Result.ok (f (s.above below)).1 (f (s.above below)).2 = _
    rw [hf]
    rfl

theorem modify {f : State V W → State V W} (hf : ∀ s below, f (s.above below) = (f s).above below)
    (hstack : ∀ s, (f s).stack = s.stack) : Framed n (fun _ => n) (modify f) :=
  modifyGet (fun s below => by rw [hf]) hstack

theorem scan (f : Scanner → Scanner) : Framed n (fun _ => n) (scan f : Step V W Unit) :=
  modify (fun _ _ => rfl) fun _ => rfl

theorem place : Framed n (fun _ => n) (place : Step V W Position) :=
  look (fun _ _ => rfl) fun _ => .pure rfl

theorem matchedSince {g : Match → Nat} (start : Position) (h : ∀ k, n = g (.hit k)) :
    Framed n g (matchedSince start : Step V W Match) :=
  bind (look (fun _ _ => rfl) fun _ => .pure rfl) fun _ => .pure (h _)

theorem missAt {g : Match → Nat} (start : Position) (h : n = g .miss) :
    Framed n g (missAt start : Step V W Match) :=
  bind (scan _) fun _ => .pure h

theorem note (notice : Notice) : Framed n (fun _ => n) (note notice : Step V W Unit) :=
  modify (fun _ _ => rfl) fun _ => rfl

theorem modifyFrame (f : Frame V → Frame V) :
    Framed n (fun _ => n) (modifyFrame f : Step V W Unit) :=
  modify (fun _ _ => rfl) fun _ => rfl

theorem fail {e : ParseError} (h : ¬ (Failure.error e).Internal) :
    Framed n g (fail e : Step V W α) :=
  ⟨fun _ _ => h, fun _ _ _ => rfl⟩

theorem failing {e : ParseError} (h : ¬ (Failure.error e).Internal) (f : α → Step V W β) :
    Framed n g' ((Step.fail e : Step V W α) >>= f) :=
  ⟨fun _ _ => h, fun _ _ _ => rfl⟩

theorem exhausted : Framed n g (exhausted : Step V W α) := ⟨fun _ _ => id, fun _ _ _ => rfl⟩

theorem push (v : V) : Framed n (fun _ => n + 1) (push v : Step V W Unit) :=
  ⟨fun _ hs => congrArg (· + 1) hs, fun _ _ _ => rfl⟩

theorem pop (rule : Rule V W) : Framed (n + 1) (fun _ => n) (pop rule) := by
  refine ⟨fun s hs => ensures_pop rule (fun v rest hv => ?_) fun hv => ?_, fun s below hs => ?_⟩
  · rw [ValueStack.size, hv] at hs
    exact Nat.succ.inj hs
  · rw [ValueStack.size, hv] at hs
    cases hs
  · obtain ⟨v, rest, hv⟩ := List.exists_cons_of_length_eq_add_one hs
    have hv' : (s.above below).stack.values = v :: (rest ++ below) := by
      rw [State.above, hv, List.cons_append]
    rw [pop_apply rule hv, pop_apply rule hv']
    rfl

theorem between {before after : State V W → State V W}
    (hbefore : ∀ s below, before (s.above below) = (before s).above below)
    (hafter : ∀ s below, after (s.above below) = (after s).above below)
    (hstack : ∀ s, (before s).stack = s.stack) (hstack' : ∀ s, (after s).stack = s.stack)
    (hx : Framed n g x) : Framed n g (between before after x) := by
  refine ⟨fun s hs => ?_, fun s below hs => ?_⟩
  · rw [ensures_between]
    apply (hx.ends (before s) (by rw [hstack, hs])).imp
    intro a t ht
    rw [hstack', ht]
  · unfold Step.between
    rw [hbefore, hx.above _ below (by rw [hstack, hs])]
    cases x (before s) <;> simp only [Ending.above, hafter]

theorem inFrame (frame : Frame V) (hx : Framed n g x) : Framed n g (inFrame frame x) := by
  refine ⟨fun s hs => ?_, fun s below hs => ?_⟩
  · rw [ensures_inFrame]
    exact hx.ends { s with frame } hs
  · have habove := hx.above { s with frame } below hs
    unfold Step.inFrame Step.between
    show (match x (State.above { s with frame } below) with
      | .ok a t => _
      | .error e t => _) = _
    rw [habove]
    cases x { s with frame } <;> rfl

/-! ### Activations -/

theorem trace (write : TraceLog → Bool × TraceLog) :
    Framed n (fun _ => n) (trace write : Step V W Unit) := by
  unfold Step.trace
  apply look (fun _ _ => rfl)
  intro s
  split
  · exact .pure rfl
  · apply bind (scan _)
    intro _
    split
    · exact .pure rfl
    · exact fail id

theorem enter (setting : Setting V W) (rule : Rule V W) :
    Framed n (fun _ => n) (enter setting rule) := by
  unfold Step.enter
  apply look (fun _ _ => rfl)
  intro s
  dsimp only
  split
  · exact look (fun _ _ => rfl) fun s => failing id _
  · refine bind (modify (fun _ _ => rfl) fun _ => rfl) fun _ => ?_
    apply look (fun _ _ => rfl)
    intro s
    split
    · exact .pure rfl
    · exact bind place fun here => bind (note _) fun _ => bind (trace _) fun _ => trace _

theorem leave (setting : Setting V W) (rule : Rule V W) (start : Position) (m : Match) :
    Framed n (fun _ => n) (leave setting rule start m) := by
  unfold Step.leave
  refine bind (modify (fun _ _ => rfl) fun _ => rfl) fun _ => ?_
  apply look (fun _ _ => rfl)
  intro s
  dsimp only
  split
  · exact .pure rfl
  · apply bind place
    intro here
    apply bind (note _)
    intro _
    split
    · exact bind (trace _) fun _ => trace _
    · exact bind (trace _) fun _ => trace _

theorem closing (setting : Setting V W) (rule : Rule V W) (start : Position)
    {body : Step V W Match} {g : Match → Nat} (hx : Framed n g body) :
    Framed n g (closing setting rule start body) := by
  refine ⟨fun s hs => ?_, fun s below hs => ?_⟩
  · refine ensures_closing setting rule start
      ((hx.ends s hs).mono (fun m t ht => ?_) fun e t he => ?_)
    · exact ensures_leave setting rule start m (fun _ _ => ht) fun _ _ => id
    · exact ensures_leave setting rule start .miss (fun _ _ => he) fun _ _ => he
  · unfold Step.closing
    rw [hx.above s below hs]
    cases body s with
    | ok m t =>
        have hclose : Framed t.stack.size (fun _ => t.stack.size) (do
            Step.leave setting rule start m
            return m : Step V W Match) := bind (leave setting rule start m) fun _ => .pure rfl
        exact hclose.above t below rfl
    | error e t =>
        simp only [Ending.above]
        rw [(leave setting rule start .miss).above t below rfl]
        cases Step.leave setting rule start .miss t <;> rfl

theorem popArguments (rule : Rule V W) (k : Nat) (taken : List V) :
    Framed (k + n) (fun _ => n) (popArguments rule k taken) := by
  induction k generalizing taken with
  | zero => exact .pure (Nat.zero_add n)
  | succ k ih =>
      rw [Nat.add_right_comm]
      exact bind (pop rule) fun v => ih (v :: taken)

theorem pushArguments (rule : Rule V W) (index : Nat) (args : List (Argument V)) :
    Framed n (fun _ => args.length + n) (pushArguments rule index args) := by
  induction args generalizing n index with
  | nil => exact .pure (Nat.zero_add n).symm
  | cons argument rest ih =>
      apply look (fun _ _ => rfl)
      intro s
      split
      · rw [List.length_cons, Nat.add_right_comm]
        exact bind (push _) fun _ => ih (index + 1)
      · exact fail id

/-- The tree of a rule takes nothing and leaves nothing; so the activation takes the arguments and
leaves the value after a hit. -/
theorem evaluate (rule : Rule V W) (start : Position) {tree : Step V W Match}
    (htree : Neutral tree) : Framed rule.inherited.length rule.results (evaluate rule start tree) := by
  refine inFrame _ (bind (popArguments (n := 0) rule _ []) fun values => bind (modifyFrame _) fun _ =>
    bind htree fun m => ?_)
  split
  · split
    · next hvalue =>
      apply look (fun _ _ => rfl)
      intro s
      apply bind (modifyFrame _)
      intro _
      dsimp only
      split
      · exact bind (push _) fun _ => matchedSince start fun k => by simp [Rule.results, hvalue]
      · exact failing id _
    · next hvalue => exact matchedSince start fun k => by simp [Rule.results, hvalue]
  · exact missAt start rfl

theorem activate (setting : Setting V W) (rule : Rule V W) {tree : Step V W Match}
    (htree : Neutral tree) :
    Framed rule.inherited.length rule.results (activate setting rule tree) :=
  bind (enter setting rule) fun _ => bind place fun start =>
    closing setting rule start (evaluate rule start htree)

theorem nonterminal (rule : Rule V W) (instanceName : String) {args : List (Argument V)}
    {body : Step V W Match} (hbody : Framed rule.inherited.length rule.results body)
    (hargs : rule.inherited.length = args.length) :
    Neutral (nonterminal rule instanceName args body) := by
  rw [hargs] at hbody
  apply bind (pushArguments (n := 0) rule 0 args)
  intro _
  apply bind hbody
  intro m
  split
  · next h =>
    rw [Rule.results, if_pos h]
    exact bind (pop rule) fun v => bind (modifyFrame _) fun _ => .pure rfl
  · next h =>
    rw [Rule.results, if_neg h]
    exact .pure rfl

/-! ### Steps whose values are dropped -/

/-- Whatever a step pushes is gone once the stack is back at the height it had before. -/
theorem dropping {x : Step V W α} {f : α → Step V W β} (hx : Framed 0 g x)
    (hf : ∀ a, Framed 0 g' (f a)) :
    Framed 0 g' (do
      let height ← height
      let a ← x
      dropAbove height
      f a) := by
  refine ⟨fun s hs => ?_, fun s below hs => ?_⟩
  · rw [ensures_bind, ensures_height, ensures_bind]
    apply (hx.ends s hs).imp
    intro a t ht
    rw [ensures_bind, ensures_dropAbove]
    apply (hf a).ends
    rw [hs, truncate_zero]
    rfl
  · have hheight : (s.above below).stack.size = below.length := by
      show (s.stack.values ++ below).length = _
      rw [List.length_eq_zero_iff.1 hs, List.nil_append]
    simp only [bind_apply, height_apply, dropAbove_apply, hx.above s below hs]
    cases x s with
    | error e t => rfl
    | ok a t =>
        have hlower : { t.above below with
            stack := (t.above below).stack.truncate (s.above below).stack.size } =
            State.above { t with stack := t.stack.truncate s.stack.size } below := by
          rw [hheight, hs, truncate_zero]
          exact congrArg (fun stack => { t with stack }) (truncate_append t.stack.values below)
        refine (congrArg (f a) hlower).trans ((hf a).above _ below ?_)
        rw [hs, truncate_zero]
        rfl

theorem lookAhead {x : Step V W Match} {g : Match → Nat} (hx : Framed 0 g x) :
    Neutral (lookAhead x) :=
  bind place fun _ => dropping hx fun _ => bind (scan _) fun _ => .pure rfl

theorem skip (setting : Setting V W) {call : RuleId → Step V W Match}
    (hcall : ∀ id, setting.skipRule = some id → ∃ g, Framed 0 g (call id)) :
    Neutral (skip setting call) := by
  unfold Step.skip
  apply look (fun _ _ => rfl)
  intro s
  split
  · exact .pure rfl
  · next id hactive =>
    obtain ⟨g, hskip⟩ := hcall id (Scanner.activeSkip_eq_some.1 hactive).2.2
    apply bind place
    intro start
    -- The values may as well be dropped before the place is restored.
    have hswap (height : Nat) (m : Match) :
        (if m.isHit then dropAbove height else do
          rewind start
          dropAbove height : Step V W Unit) = (do
          dropAbove height
          unless m.isHit do rewind start) := by
      cases m <;> rfl
    simp only [hswap]
    refine dropping (between (fun _ _ => rfl) (fun _ _ => rfl) (fun _ => rfl) (fun _ => rfl)
      hskip) fun m => ?_
    split
    · exact .pure rfl
    · exact scan _

end Framed

/-! ### Trees and rules -/

theorem neutral_congruence (setting : Setting V W) :
    Congruence setting setting fun _ x _ => Neutral x where
  source := rfl
  pure _ := .pure rfl
  bind hx hf := hx.bind hf
  look hf h := .look (fun s below => hf _ _ rfl) h
  move _ := .scan _
  inToken hx := .between (fun _ _ => rfl) (fun _ _ => rfl) (fun _ => rfl) (fun _ => rfl) hx
  exhausted := .exhausted
  failExpecting _ _ _ := .fail id
  act run start m := by
    refine Framed.bind .place fun here => .bind (.modifyGet (fun _ _ => rfl) fun _ => rfl) fun c => ?_
    split
    · exact .fail id
    · split
      · exact .pure rfl
      · exact .missAt start rfl

end Step

theorem framed_of_arity {setting : Setting V W} {call : RuleId → Step V W Match}
    (hcall : ∀ (id : RuleId) (rule : Rule V W), setting.rules[id.index]? = some rule →
      Step.Framed rule.inherited.length rule.results (call id))
    {id : RuleId} {n : Nat} (h : arity? setting.rules id = some n) :
    ∃ g, Step.Framed n g (call id) := by
  obtain ⟨rule, hrule, rfl⟩ := arity?_eq_some.1 h
  exact ⟨rule.results, hcall id rule hrule⟩

/-- In a linked table every tree is neutral, if the rules take and leave the values they declare. -/
theorem evalParser_neutral {setting : Setting V W} {call : RuleId → Step V W Match}
    (hskip : ∀ id, setting.skipRule = some id → arity? setting.rules id = some 0)
    (hcall : ∀ (id : RuleId) (rule : Rule V W), setting.rules[id.index]? = some rule →
      Step.Framed rule.inherited.length rule.results (call id))
    {p : LinkedParser V W} (hp : p.LinkedIn setting.rules) :
    Step.Neutral (evalParser setting call p) := by
  have hplain (id : RuleId) (h : arity? setting.rules id = some 0) := framed_of_arity hcall h
  refine (Step.neutral_congruence setting).evalParser call call ?_ (fun rule hrule => ?_)
    (fun rule instanceName args hrule => ?_) hp
  · exact .skip setting fun id hid => hplain id (hskip id hid)
  · obtain ⟨g, hlook⟩ := hplain rule.id hrule
    exact .lookAhead hlook
  · obtain ⟨target, htarget, hlength⟩ := arity?_eq_some.1 hrule
    rw [evalParser, htarget]
    exact (hcall rule.id target htarget).nonterminal target instanceName hlength

theorem evalRule_framed {setting : Setting V W} (htable : LinkedTable setting.rules)
    (hskip : ∀ id, setting.skipRule = some id → arity? setting.rules id = some 0) (fuel : Nat)
    (id : RuleId) (rule : Rule V W) (hrule : setting.rules[id.index]? = some rule) :
    Step.Framed rule.inherited.length rule.results (evalRule setting fuel id) := by
  induction fuel generalizing id rule with
  | zero => exact .exhausted
  | succ fuel ih =>
      rw [evalRule, hrule]
      exact .activate setting rule (evalParser_neutral hskip ih (htable _ rule hrule))

/-! ### Any stack -/

namespace Step

/-- The step leaves the stack as it found it, and does the same with more values below. -/
def KeepsStack (x : Step V W α) : Prop :=
  (∀ s a t, x s = .ok a t → t.stack = s.stack) ∧
    ∀ s below, x (s.above below) = Ending.above (x s) below

/-- What a step does with values below those that it owns, in terms of what it does without. -/
theorem Framed.above_any {n : Nat} {g : α → Nat} {x : Step V W α} (hx : Framed n g x)
    {s : State V W} {own lower : List V} (hown : own.length = n)
    (hstack : s.stack.values = own ++ lower) (below : List V) :
    x (s.above below) = Ending.above (x s) below := by
  have habove (values : List V) := hx.above (s.owning own) values hown
  calc
    x (s.above below) = x ((s.owning own).above (lower ++ below)) := by
      rw [← State.above_above, State.owning_above hstack]
    _ = Ending.above (x (s.owning own)) (lower ++ below) := habove _
    _ = Ending.above (Ending.above (x (s.owning own)) lower) below :=
      (Ending.above_above _ _ _).symm
    _ = Ending.above (x s) below := by rw [← habove, State.owning_above hstack]

/-- The values that a step owns in the end lie above those that were below it. -/
theorem Framed.ensures {n : Nat} {g : α → Nat} {x : Step V W α} (hx : Framed n g x)
    {s : State V W} {own lower : List V} (hown : own.length = n)
    (hstack : s.stack.values = own ++ lower) :
    x.Ensures s (fun a t => ∃ left : List V, left.length = g a ∧ t.stack.values = left ++ lower)
      fun e _ => ¬ e.Internal := by
  have hends := hx.ends (s.owning own) hown
  rw [← State.owning_above hstack]
  unfold Ensures at hends ⊢
  rw [hx.above (s.owning own) lower hown]
  cases h : x (s.owning own) with
  | error e u =>
      rw [h] at hends
      exact hends
  | ok a u =>
      rw [h] at hends
      exact ⟨u.stack.values, hends, rfl⟩

theorem Neutral.ensures {x : Step V W α} (hx : Neutral x) (s : State V W) :
    x.Ensures s (fun _ t => t.stack = s.stack) fun e _ => ¬ e.Internal := by
  apply (Framed.ensures hx rfl (List.nil_append _).symm).imp
  intro a t ht
  obtain ⟨left, hleft, hstack⟩ := ht
  rw [List.eq_nil_of_length_eq_zero hleft, List.nil_append] at hstack
  exact congrArg ValueStack.mk hstack

theorem Neutral.keepsStack {x : Step V W α} (hx : Neutral x) : KeepsStack x :=
  ⟨fun s _ _ hrun => (Neutral.ensures hx s).of_ok hrun,
    fun _ below => Framed.above_any hx rfl (List.nil_append _).symm below⟩

end Step

/-! ### Inside an activation -/

/-- The state in which the tree of a rule starts: the arguments are off the stack and bound to the
names that the rule declares, in a frame of its own. -/
def State.bound (s : State V W) (rule : Rule V W) (args below : List V) : State V W :=
  { s with
    stack := ⟨below⟩
    frame := (Frame.ofLocals rule.locals).bindInherited rule.inherited args }

/-- The run of the tree inside an activation that went from `s` to `t` and ended with the match `m`:
at its entry the arguments are off the stack, and the frame holds them under the names that the rule
declares and nothing else; after a hit the value that the tree leaves in the frame is the one
returned. -/
structure InnerRun (rule : Rule V W) (tree : Step V W Match) (args below : List V)
    (s : State V W) (m : Match) (t : State V W) (entry : State V W) (inner : Match)
    (exit : State V W) : Prop where
  cursor : entry.scanner.cursor = s.scanner.cursor
  fresh : entry.frame.value = none ∧ entry.frame.locals = rule.locals.map (·, none) ∧
    entry.frame.instances = []
  /-- The name declared in the `k`-th place answers with the `k`-th argument, unless it was declared
  before. -/
  inherited : entry.frame.inherited.length = rule.inherited.length ∧
    ∀ (k : Nat) (name : String) (v : V), rule.inherited[k]? = some name → args[k]? = some v →
      entry.frame.inherited[k]? = some (name, v) ∧
      (name ∉ rule.inherited.take k → entry.frame.inherited? name = some v)
  stack : entry.stack.values = below
  run : tree entry = .ok inner exit
  isHit : inner.isHit = m.isHit
  value : if m.isHit && rule.hasValue then
      ∃ v, exit.frame.value = some v ∧ t.stack = exit.stack.push v
    else t.stack = exit.stack

namespace Step

variable {s : State V W} {args below : List V}

/-- Popping takes the values off the stack and lists the last one first. -/
theorem popArguments_apply (rule : Rule V W) (taken : List V) {pushed : List V}
    (hstack : s.stack.values = pushed ++ below) :
    popArguments rule pushed.length taken s = .ok (pushed.reverse ++ taken) (s.owning below) := by
  induction pushed generalizing taken s with
  | nil =>
      rw [List.nil_append] at hstack
      rw [← hstack]
      rfl
  | cons v pushed ih =>
      have hrest : popArguments rule pushed.length (v :: taken) (s.owning (pushed ++ below)) =
          .ok (pushed.reverse ++ v :: taken) (s.owning below) := ih (v :: taken) rfl
      rw [List.length_cons, popArguments, bind_apply, pop_apply rule hstack, List.reverse_cons,
        List.append_assoc, List.singleton_append]
      exact hrest

/-- Arguments are bound in the order in which the names are declared. -/
theorem inherited?_bindInherited {names : List String} {k : Nat} {name : String} {v : V}
    (f : Frame V) (hname : names[k]? = some name) (hvalue : args[k]? = some v)
    (hfirst : name ∉ names.take k) : (f.bindInherited names args).inherited? name = some v := by
  show (names.zip args).lookup name = some v
  induction names generalizing args k with
  | nil => simp at hname
  | cons first names ih =>
      cases args with
      | nil => simp at hvalue
      | cons u args =>
          rw [List.zip_cons_cons, Entries.lookup_cons]
          cases k with
          | zero =>
              rw [if_pos (Option.some.inj hname).symm]
              exact hvalue
          | succ k =>
              rw [List.take_succ_cons, List.mem_cons, not_or] at hfirst
              rw [if_neg hfirst.1]
              exact ih hname hvalue hfirst.2

/-- The state in which the tree of a rule is entered has the arguments in their places. -/
theorem inherited_bound (rule : Rule V W) (hlength : args.length = rule.inherited.length) :
    (s.bound rule args below).frame.inherited.length = rule.inherited.length ∧
      ∀ (k : Nat) (name : String) (v : V), rule.inherited[k]? = some name → args[k]? = some v →
        (s.bound rule args below).frame.inherited[k]? = some (name, v) ∧
        (name ∉ rule.inherited.take k →
          (s.bound rule args below).frame.inherited? name = some v) := by
  refine ⟨?_, fun k name v hname hvalue => ⟨?_, fun hfirst => ?_⟩⟩
  · show (rule.inherited.zip args).length = _
    rw [List.length_zip, hlength, Nat.min_self]
  · exact List.getElem?_zip_eq_some.2 ⟨hname, hvalue⟩
  · exact inherited?_bindInherited _ hname hvalue hfirst

theorem ensures_evaluate (rule : Rule V W) (start : Position) (tree : Step V W Match)
    (hlength : args.length = rule.inherited.length)
    (hstack : s.stack.values = args.reverse ++ below) :
    (evaluate rule start tree).Ensures s
      (fun m t => ∃ entry inner exit, InnerRun rule tree args below s m t entry inner exit)
      fun _ _ => True := by
  have hpop : popArguments rule rule.inherited.length [] { s with frame := .ofLocals rule.locals } =
      .ok args { s with frame := .ofLocals rule.locals, stack := ⟨below⟩ } := by
    have h := popArguments_apply rule [] (s := { s with frame := .ofLocals rule.locals }) hstack
    rwa [List.length_reverse, hlength, List.reverse_reverse, List.append_nil] at h
  simp only [Step.evaluate, ensures_inFrame, ensures_bind, ensures_iff_of_ok hpop,
    ensures_modifyFrame, ensures_ite, ensures_get, ensures_missAt, ensures_matchedSince]
  refine (ensures_self tree (s.bound rule args below)).mono (fun m u hrun => ?_)
    fun _ _ _ => trivial
  split
  · next hhit =>
    split
    · next hvalue =>
      simp only [Frame.takeValue]
      cases hv : u.frame.value with
      | none => trivial
      | some v =>
        refine ⟨s.bound rule args below, m, u, rfl, ⟨rfl, rfl, rfl⟩, inherited_bound rule hlength,
          rfl, hrun, hhit, ?_⟩
        rw [Match.isHit_hit, hvalue, Bool.true_and, if_pos rfl]
        exact ⟨v, hv, rfl⟩
    · next hvalue =>
      refine ⟨s.bound rule args below, m, u, rfl, ⟨rfl, rfl, rfl⟩, inherited_bound rule hlength,
        rfl, hrun, hhit, ?_⟩
      rw [Match.isHit_hit, Bool.true_and, if_neg hvalue]
  · next hmiss =>
    refine ⟨s.bound rule args below, m, u, rfl, ⟨rfl, rfl, rfl⟩, inherited_bound rule hlength, rfl,
      hrun, ?_, rfl⟩
    exact Bool.eq_false_iff.2 hmiss

/-- An activation opens, runs its tree on the arguments that its caller pushed, and closes. -/
theorem ensures_activate (setting : Setting V W) (rule : Rule V W) (tree : Step V W Match)
    (hlength : args.length = rule.inherited.length)
    (hstack : s.stack.values = args.reverse ++ below) :
    (activate setting rule tree).Ensures s
      (fun m t => ∃ entry inner exit, InnerRun rule tree args below s m t entry inner exit)
      fun _ _ => True := by
  simp only [Step.activate, ensures_bind, ensures_place]
  refine ensures_enter setting rule (fun _ => trivial) (fun log notices => ?_) fun _ _ => trivial
  refine ensures_closing setting rule _ (.mono (ensures_evaluate rule _ tree hlength hstack)
    (fun m t h => ?_) fun _ _ _ => ensures_trivial _ _)
  obtain ⟨entry, inner, exit, h⟩ := h
  refine ensures_leave setting rule _ m (fun log notices => ?_) fun _ _ => trivial
  exact ⟨entry, inner, exit, h.cursor, h.fresh, h.inherited, h.stack, h.run, h.isHit, h.value⟩

end Step

/-! ### Domains as they are built -/

theorem evalRule_ensures {setting : Setting V W} (fuel : Nat) {id : RuleId} {rule : Rule V W}
    (hrule : setting.rules[id.index]? = some rule) {s : State V W} {args below : List V}
    (hlength : args.length = rule.inherited.length)
    (hstack : s.stack.values = args.reverse ++ below) :
    (evalRule setting fuel id).Ensures s
      (fun m t => ∃ nesting entry inner exit, fuel = nesting + 1 ∧
        InnerRun rule (evalParser setting (evalRule setting nesting) rule.definition) args below
          s m t entry inner exit)
      fun _ _ => True := by
  cases fuel with
  | zero => trivial
  | succ fuel =>
      rw [evalRule, hrule]
      apply (Step.ensures_activate setting rule _ hlength hstack).imp
      intro m t h
      obtain ⟨entry, inner, exit, h⟩ := h
      exact ⟨fuel, entry, inner, exit, rfl, h⟩

/-- In every domain that can be built, the skipping, the look-ahead behind keywords and every tree
leave the stack as they found it, whatever is on it, and do the same whatever it is. A rule takes its
arguments off the stack and binds them to the names it declares; after a hit it has put the value of
its frame there, if it declares one, and otherwise nothing; and it does the same whatever lies below
the arguments. -/
theorem stack_discipline (config : Config) (decls : List (GrammarDecl V W)) (g : Grammar)
    (hsize : (Domain.build config decls).rules.size < UInt32.size)
    (hg : g ∈ (Domain.build config decls).grammars) (text : Buffer) (options : Options V)
    (fuel : Nat) :
    let rules := (Domain.build config decls).rules
    let setting := settingFor (Domain.build config decls) g text options
    LinkedTable rules ∧
    (Step.skip setting (evalRule setting fuel)).KeepsStack ∧
    (∀ id, arity? rules id = some 0 → (Step.lookAhead (evalRule setting fuel id)).KeepsStack) ∧
    (∀ p, p.LinkedIn rules → (evalParser setting (evalRule setting fuel) p).KeepsStack) ∧
    ∀ (id : RuleId) (rule : Rule V W) (s : State V W) (args below : List V),
      rules[id.index]? = some rule → args.length = rule.inherited.length →
      s.stack.values = args.reverse ++ below →
      (∀ m t, evalRule setting fuel id s = .ok m t →
        (if m.isHit && rule.hasValue then ∃ v, t.stack.values = v :: below
          else t.stack.values = below) ∧
        ∃ nesting entry inner exit, fuel = nesting + 1 ∧
          InnerRun rule (evalParser setting (evalRule setting nesting) rule.definition) args below
            s m t entry inner exit) ∧
      ∀ lower, evalRule setting fuel id (s.above lower) =
        Ending.above (evalRule setting fuel id s) lower := by
  intro rules setting
  have hlinked := Domain.linked_build config decls hsize
  have htable : LinkedTable setting.rules := hlinked.table
  have hskip (id : RuleId) (hid : setting.skipRule = some id) : arity? setting.rules id = some 0 :=
    hlinked.skipRule g hg id hid
  have hcall := evalRule_framed htable hskip fuel
  have hplain (id : RuleId) (h : arity? setting.rules id = some 0) := framed_of_arity hcall h
  refine ⟨htable, (Step.Framed.skip setting fun id hid => hplain id (hskip id hid)).keepsStack,
    fun id hid => ?_, fun p hp => (evalParser_neutral hskip hcall hp).keepsStack,
    fun id rule s args below hrule hlength hstack => ⟨fun m t hrun => ⟨?_, ?_⟩, fun lower => ?_⟩⟩
  · obtain ⟨g, hlook⟩ := hplain id hid
    exact (Step.Framed.lookAhead hlook).keepsStack
  · obtain ⟨left, hleft, hvalues⟩ :=
      ((hcall id rule hrule).ensures (by rw [List.length_reverse, hlength]) hstack).of_ok hrun
    unfold Rule.results at hleft
    split
    · next h =>
      rw [if_pos h] at hleft
      obtain ⟨v, rfl⟩ := List.length_eq_one_iff.1 hleft
      exact ⟨v, hvalues⟩
    · next h =>
      rw [if_neg h] at hleft
      rwa [List.eq_nil_of_length_eq_zero hleft] at hvalues
  · exact (evalRule_ensures fuel hrule hlength hstack).of_ok hrun
  · exact (hcall id rule hrule).above_any (by rw [List.length_reverse, hlength]) hstack lower

/-- A rule that returns the attribute it inherits, once it has read a character. -/
def copyGrammar : GrammarDecl Nat Unit where
  name := "copying"
  rules := [{
    name := "copy"
    definition := .action "copy" .anyChar
    valueType := some "Nat"
    inherited := ["x"]
    actions := [⟨"copy", fun ctx =>
      match ctx.frame.inherited? "x" with
      | some v => ctx.setValue v
      | none => ctx⟩] }]

/-- The argument is taken off the stack and answers to its name, the value returned is put on the
stack, and what lay below is still there. -/
theorem stack_discipline_copy :
    ∃ g ∈ (Domain.build {} [copyGrammar]).grammars, ∃ t,
      evalRule (settingFor (Domain.build {} [copyGrammar]) g #['a'] {}) 1 (.ofNat 0)
        ((State.start none ()).above [7, 1]) = .ok (.hit 1) t ∧
      t.stack.values = [7, 1] ∧
      ∃ entry exit : State Nat Unit, entry.frame.inherited? "x" = some 7 ∧
        entry.stack.values = [1] ∧ exit.frame.value = some 7 := by
  obtain ⟨g, hgrammars⟩ : ∃ g, (Domain.build {} [copyGrammar]).grammars = #[g] := ⟨_, rfl⟩
  have hg : g ∈ (Domain.build {} [copyGrammar]).grammars := by simp [hgrammars]
  have hsize : (Domain.build {} [copyGrammar]).rules.size < UInt32.size := by decide +kernel
  obtain ⟨rule, hrule, hinherited, hvalue⟩ : ∃ rule : Rule Nat Unit,
    (Domain.build {} [copyGrammar]).rules[(RuleId.ofNat 0).index]? = some rule ∧
      rule.inherited = ["x"] ∧ rule.hasValue = true := ⟨_, rfl, rfl, rfl⟩
  refine ⟨g, hg, _, rfl, rfl, ?_⟩
  have h := (stack_discipline {} [copyGrammar] g hsize hg #['a'] {} 1).2.2.2.2 (.ofNat 0) rule
    ((State.start none ()).above [7, 1]) [7] [1] hrule (by rw [hinherited]; rfl) rfl
  obtain ⟨-, nesting, entry, inner, exit, -, hrun⟩ := h.1 (.hit 1) _ rfl
  have hname := (hrun.inherited.2 0 "x" 7 (by rw [hinherited]; rfl) rfl).2 List.not_mem_nil
  have hreturned := hrun.value
  rw [hvalue, Match.isHit_hit, Bool.true_and, if_pos rfl] at hreturned
  obtain ⟨v, hv, hstack⟩ := hreturned
  have hsame : [7, 1] = v :: exit.stack.values := congrArg ValueStack.values hstack
  exact ⟨entry, exit, hname, hrun.stack, by rw [hv, (List.cons.inj hsame).1]⟩

end AttrGrammar.Parse

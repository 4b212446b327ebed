import AttrGrammar.Parse.Activation

/-! What a step ensures. A statement about a step speaks of the state it starts from, of the results
and states with which it can end, and of the failures and states with which it can break off. What a
chain of steps ensures is read off what its links ensure, so each basic step has one equation here
and a combinator is followed by rewriting with them. -/

namespace AttrGrammar.Parse.Step
open Text Scan Peg

variable {V W α β : Type}

/-- From the state `s` the step ends with a result and a state of which `good` holds, or it breaks
off with a failure and a state of which `bad` holds. -/
def Ensures (x : Step V W α) (s : State V W) (good : α → State V W → Prop)
    (bad : Failure → State V W → Prop) : Prop :=
  match x s with
  | .ok a t => good a t
  | .error e t => bad e t

variable {good good' : α → State V W → Prop} {bad bad' : Failure → State V W → Prop}
  {s t : State V W} {x : Step V W α}

theorem Ensures.mono (h : x.Ensures s good bad) (hgood : ∀ a t, good a t → good' a t)
    (hbad : ∀ e t, bad e t → bad' e t) : x.Ensures s good' bad' := by
  unfold Ensures at h ⊢
  cases hx : x s with
  | ok a t =>
      rw [hx] at h
      exact hgood a t h
  | error e t =>
      rw [hx] at h
      exact hbad e t h

theorem Ensures.imp (h : x.Ensures s good bad) (hgood : ∀ a t, good a t → good' a t) :
    x.Ensures s good' bad :=
  h.mono hgood fun _ _ hbad => hbad

theorem Ensures.and (h : x.Ensures s good bad) (h' : x.Ensures s good' bad') :
    x.Ensures s (fun a t => good a t ∧ good' a t) (fun e t => bad e t ∧ bad' e t) := by
  unfold Ensures at h h' ⊢
  cases hx : x s with
  | ok a t =>
      rw [hx] at h h'
      exact ⟨h, h'⟩
  | error e t =>
      rw [hx] at h h'
      exact ⟨h, h'⟩

theorem ensures_trivial (x : Step V W α) (s : State V W) :
    x.Ensures s (fun _ _ => True) fun _ _ => True := by
  unfold Ensures
  split <;> trivial

theorem Ensures.of_ok {a : α} (h : x.Ensures s good bad) (hx : x s = .ok a t) : good a t := by
  unfold Ensures at h
  rwa [hx] at h

theorem Ensures.of_error {e : Failure} (h : x.Ensures s good bad) (hx : x s = .error e t) :
    bad e t := by
  unfold Ensures at h
  rwa [hx] at h

theorem ensures_iff_of_ok {a : α} (hx : x s = .ok a t) : x.Ensures s good bad ↔ good a t := by
  unfold Ensures
  rw [hx]

theorem ensures_iff_of_error {e : Failure} (hx : x s = .error e t) :
    x.Ensures s good bad ↔ bad e t := by
  unfold Ensures
  rw [hx]

/-- How a given run ends can be found out by running it. -/
instance [∀ a t, Decidable (good a t)] [∀ e t, Decidable (bad e t)] :
    Decidable (x.Ensures s good bad) :=
  match h : x s with
  | .ok _ _ => decidable_of_iff _ (ensures_iff_of_ok h).symm
  | .error _ _ => decidable_of_iff _ (ensures_iff_of_error h).symm

theorem Ensures.exists_ok (h : x.Ensures s good fun _ _ => False) :
    ∃ a t, x s = .ok a t ∧ good a t := by
  cases hx : x s with
  | ok a t => exact ⟨a, t, rfl, h.of_ok hx⟩
  | error e t => exact (h.of_error hx).elim

theorem Ensures.exists_error (h : x.Ensures s (fun _ _ => False) bad) :
    ∃ e t, x s = .error e t ∧ bad e t := by
  cases hx : x s with
  | ok a t => exact (h.of_ok hx).elim
  | error e t => exact ⟨e, t, rfl, h.of_error hx⟩

/-- Each ending is the one that the step has. -/
theorem ensures_self (x : Step V W α) (s : State V W) :
    x.Ensures s (fun a t => x s = .ok a t) fun e t => x s = .error e t := by
  unfold Ensures
  split <;> assumption

@[simp]
theorem ensures_pure (a : α) : (pure a : Step V W α).Ensures s good bad ↔ good a s := Iff.rfl

@[simp]
theorem ensures_bind {good : β → State V W → Prop} (f : α → Step V W β) :
    (x >>= f).Ensures s good bad ↔ x.Ensures s (fun a t => (f a).Ensures t good bad) bad := by
  unfold Ensures
  rw [bind_apply]
  cases x s <;> rfl

theorem ensures_ite {c : Prop} [Decidable c] {y : Step V W α} :
    (if c then x else y).Ensures s good bad ↔
      if c then x.Ensures s good bad else y.Ensures s good bad := by
  split <;> rfl

@[simp]
theorem ensures_get {good : State V W → State V W → Prop} :
    (get : Step V W (State V W)).Ensures s good bad ↔ good s s := Iff.rfl

@[simp]
theorem ensures_modify {good : PUnit → State V W → Prop} (f : State V W → State V W) :
    (modify f : Step V W PUnit).Ensures s good bad ↔ good ⟨⟩ (f s) := Iff.rfl

@[simp]
theorem ensures_modifyGet (f : State V W → α × State V W) :
    (modifyGet f : Step V W α).Ensures s good bad ↔ good (f s).1 (f s).2 := Iff.rfl

@[simp]
theorem ensures_fail (e : ParseError) :
    (fail e : Step V W α).Ensures s good bad ↔ bad (.error e) s := Iff.rfl

@[simp]
theorem ensures_exhausted :
    (exhausted : Step V W α).Ensures s good bad ↔ bad .outOfFuel s := Iff.rfl

@[simp]
theorem ensures_scan {good : Unit → State V W → Prop} (f : Scanner → Scanner) :
    (scan f).Ensures s good bad ↔ good () { s with scanner := f s.scanner } := Iff.rfl

@[simp]
theorem ensures_place {good : Position → State V W → Prop} :
    place.Ensures s good bad ↔ good s.scanner.position s := Iff.rfl

@[simp]
theorem ensures_offset {good : Nat → State V W → Prop} :
    offset.Ensures s good bad ↔ good s.scanner.offset s := Iff.rfl

@[simp]
theorem ensures_rewind {good : Unit → State V W → Prop} (p : Position) :
    (rewind p).Ensures s good bad ↔
      good () { s with scanner := s.scanner.mapCursor (·.restore p) } := Iff.rfl

@[simp]
theorem ensures_matchedSince {good : Match → State V W → Prop} (p : Position) :
    (matchedSince p).Ensures s good bad ↔ good (.hit (s.scanner.offset - p.offset)) s := Iff.rfl

@[simp]
theorem ensures_missAt {good : Match → State V W → Prop} (p : Position) :
    (missAt p).Ensures s good bad ↔
      good .miss { s with scanner := s.scanner.mapCursor (·.restore p) } := Iff.rfl

@[simp]
theorem ensures_note {good : Unit → State V W → Prop} (n : Notice) :
    (note n).Ensures s good bad ↔ good () { s with notices := n :: s.notices } := Iff.rfl

@[simp]
theorem ensures_push {good : Unit → State V W → Prop} (v : V) :
    (push v).Ensures s good bad ↔ good () { s with stack := s.stack.push v } := Iff.rfl

@[simp]
theorem ensures_height {good : Nat → State V W → Prop} :
    height.Ensures s good bad ↔ good s.stack.size s := Iff.rfl

@[simp]
theorem ensures_dropAbove {good : Unit → State V W → Prop} (n : Nat) :
    (dropAbove n).Ensures s good bad ↔ good () { s with stack := s.stack.truncate n } := Iff.rfl

@[simp]
theorem ensures_modifyFrame {good : Unit → State V W → Prop} (f : Frame V → Frame V) :
    (modifyFrame f).Ensures s good bad ↔ good () { s with frame := f s.frame } := Iff.rfl

@[simp]
theorem ensures_between (before after : State V W → State V W) :
    (between before after x).Ensures s good bad ↔
      x.Ensures (before s) (fun a t => good a (after t)) (fun e t => bad e (after t)) := by
  unfold Ensures between
  cases x (before s) <;> rfl

@[simp]
theorem ensures_inFrame (frame : Frame V) :
    (inFrame frame x).Ensures s good bad ↔ x.Ensures { s with frame := frame }
      (fun a t => good a { t with frame := s.frame })
      (fun e t => bad e { t with frame := s.frame }) :=
  ensures_between _ _

/-- A pop takes the last value pushed, or finds that there is none. -/
theorem ensures_pop {good : V → State V W → Prop} (rule : Rule V W)
    (hgood : ∀ v rest, s.stack.values = v :: rest → good v { s with stack := ⟨rest⟩ })
    (hbad : s.stack.values = [] →
      bad (.error (.valueStackUnderflow rule.fullName)) { s with stack := ⟨[]⟩ }) :
    (pop rule).Ensures s good bad := by
  simp only [pop, ensures_bind, ensures_get, ensures_modify, ValueStack.pop?]
  cases hs : s.stack.values with
  | nil => exact hbad hs
  | cons v rest => exact hgood v rest hs

/-- Writing to the trace changes the trace only, and fails with the log error only. -/
theorem ensures_trace {good : Unit → State V W → Prop} (write : TraceLog → Bool × TraceLog)
    (hgood : ∀ log, good () { s with scanner := { s.scanner with log := log } })
    (hbad : ∀ log, bad (.error .log) { s with scanner := { s.scanner with log := log } }) :
    (trace write).Ensures s good bad := by
  simp only [trace, ensures_bind, ensures_get]
  cases hlog : s.scanner.log with
  | none =>
      have h := hgood none
      rwa [← hlog] at h
  | some log =>
      simp only [ensures_bind, ensures_scan]
      split
      · exact hgood _
      · exact hbad _

/-! ### Opening and closing an activation -/

variable (setting : Setting V W) (rule : Rule V W) (start : Position)

/-- Opening an activation counts it and leaves a notice and a line of the trace, and nothing else
changes. -/
theorem ensures_enter {good : Unit → State V W → Prop}
    (hlimit : ∀ location, bad (.error (.recursionLimitExceeded rule.fullName setting.maxDepth
      location)) s)
    (hgood : ∀ log notices, good () { s with
      scanner := { s.scanner with log := log }, depth := s.depth + 1, notices := notices })
    (hbad : ∀ log notices, bad (.error .log) { s with
      scanner := { s.scanner with log := log }, depth := s.depth + 1, notices := notices }) :
    (enter setting rule).Ensures s good bad := by
  simp only [enter, ensures_bind, ensures_modify, ensures_get, ensures_ite, ensures_fail,
    ensures_pure, ensures_place, ensures_note]
  split
  · exact hlimit _
  · split
    · exact hgood s.scanner.log s.notices
    · exact ensures_trace _ (fun _ => ensures_trace _ (fun _ => hgood _ _) fun _ => hbad _ _)
        fun _ => hbad _ _

/-- Closing an activation takes it from the count and leaves a notice and lines of the trace, and
nothing else changes. -/
theorem ensures_leave {good : Unit → State V W → Prop} (m : Match)
    (hgood : ∀ log notices, good () { s with
      scanner := { s.scanner with log := log }, depth := s.depth - 1, notices := notices })
    (hbad : ∀ log notices, bad (.error .log) { s with
      scanner := { s.scanner with log := log }, depth := s.depth - 1, notices := notices }) :
    (leave setting rule start m).Ensures s good bad := by
  simp only [leave, ensures_bind, ensures_modify, ensures_get, ensures_ite, ensures_pure,
    ensures_place, ensures_note]
  split
  · exact hgood s.scanner.log s.notices
  · split <;>
      exact ensures_trace _ (fun _ => ensures_trace _ (fun _ => hgood _ _) fun _ => hbad _ _)
        fun _ => hbad _ _

theorem closing_of_ok {body : Step V W Match} {m : Match} (h : body s = .ok m t) :
    closing setting rule start body s = (do leave setting rule start m; return m) t := by
  simp only [closing, h]

theorem closing_of_error {body : Step V W Match} {e : Failure} {u : State V W}
    (h : body s = .error e t) (hleave : leave setting rule start .miss t = .ok () u) :
    closing setting rule start body s = .error e u := by
  simp only [closing, h, hleave]

/-- Where an activation that an error ends cannot be closed, a notice is left. -/
theorem closing_of_errors {body : Step V W Match} {e e' : Failure} {u : State V W}
    (h : body s = .error e t) (hleave : leave setting rule start .miss t = .error e' u) :
    closing setting rule start body s =
      .error e { u with notices := .traceUnclosed rule.fullName :: u.notices } := by
  simp only [closing, h, hleave]

/-- An activation ends as its body does, and in each case it is closed. -/
theorem ensures_closing {good : Match → State V W → Prop} {body : Step V W Match}
    (h : body.Ensures s
      (fun m t => (leave setting rule start m).Ensures t (fun _ u => good m u) bad)
      (fun e t => (leave setting rule start .miss).Ensures t (fun _ u => bad e u)
        fun _ u => bad e { u with notices := .traceUnclosed rule.fullName :: u.notices })) :
    (closing setting rule start body).Ensures s good bad := by
  unfold Ensures closing at *
  cases hbody : body s with
  | ok m t =>
      rw [hbody] at h
      simp only [bind_apply, pure_apply]
      cases hleave : leave setting rule start m t <;> simpa only [hleave] using h
  | error e t =>
      rw [hbody] at h
      cases hleave : leave setting rule start .miss t <;> simpa only [hleave] using h

end AttrGrammar.Parse.Step

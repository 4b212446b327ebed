import AttrGrammar.Proofs.Slots

/-! Frames as finite maps. Whatever is stored in a frame, taken from it and changed in place, and in
whatever order, each slot answers with what was stored in it last and has not been taken since. The
names are searched for in lists, of which the first entry with a name counts. That no second one
gets in the way is due to the names of the calls being kept distinct, although the last entry moves
into the gap of one that is taken; the local variables keep their entries even when they are
emptied, so that of one declared twice always the same entry is meant. -/

namespace AttrGrammar.Peg

variable {V : Type}

namespace Frame

/-! ### Operations and what they record -/

/-- What can be done to a frame. -/
inductive Op (V : Type) where
  | setValue (v : V)
  | takeValue
  | modifyValue (change : V → V)
  | modifyInherited (name : String) (change : V → V)
  | setLocal (name : String) (v : V)
  | takeLocal (name : String)
  | modifyLocal (name : String) (change : V → V)
  | setInstance (name : String) (v : V)
  | takeInstance (name : String)

/-- A value was stored in a slot, or the slot was emptied. -/
inductive Event (V : Type) where
  | stored (slot : Slot) (v : V)
  | taken (slot : Slot)

/-- What was stored in a slot most recently and has not been taken since. Of the events the last one
comes first. -/
def latest : List (Event V) → Slot → Option V
  | [], _ => none
  | .stored slot v :: earlier, other => if other = slot then some v else latest earlier other
  | .taken slot :: earlier, other => if other = slot then none else latest earlier other

/-- A change in place stores the changed value, if there is one to change. -/
def changed (history : List (Event V)) (slot : Slot) (change : V → V) : List (Event V) :=
  match latest history slot with
  | some v => .stored slot (change v) :: history
  | none => history

namespace Op

/-- The slot that an operation is about. -/
def slot : Op V → Slot
  | setValue _ | takeValue | modifyValue _ => .value
  | modifyInherited name _ => .inherited name
  | setLocal name _ | takeLocal name | modifyLocal name _ => .localVar name
  | setInstance name _ | takeInstance name => .returned name

/-- The frame behind an operation. -/
def run (f : Frame V) : Op V → Frame V
  | setValue v => f.setValue v
  | takeValue => f.takeValue.2
  | modifyValue change => f.modifyValue change
  | modifyInherited name change => f.modifyInherited name change
  | setLocal name v => (f.setLocal name v).2
  | takeLocal name => (f.takeLocal name).2
  | modifyLocal name change => f.modifyLocal name change
  | setInstance name v => f.setInstance name v
  | takeInstance name => (f.takeInstance name).2

/-- What an operation leaves in its slot, on a frame with the given local variables. -/
def leaves (locals : List String) (held : Option V) : Op V → Option V
  | setValue v | setInstance _ v => some v
  | setLocal name v => if name ∈ locals then some v else held
  | takeValue | takeLocal _ | takeInstance _ => none
  | modifyValue change | modifyInherited _ change | modifyLocal _ change => held.map change

/-- The events behind an operation on a frame with the given local variables. -/
def record (locals : List String) (history : List (Event V)) : Op V → List (Event V)
  | setValue v => .stored .value v :: history
  | takeValue => .taken .value :: history
  | modifyValue change => changed history .value change
  | modifyInherited name change => changed history (.inherited name) change
  | setLocal name v => if name ∈ locals then .stored (.localVar name) v :: history else history
  | takeLocal name => .taken (.localVar name) :: history
  | modifyLocal name change => changed history (.localVar name) change
  | setInstance name v => .stored (.returned name) v :: history
  | takeInstance name => .taken (.returned name) :: history

end Op

/-- The frame in which an activation starts that inherits the given attributes. -/
def entered (locals : List String) (attributes : List (String × V)) : Frame V :=
  (ofLocals locals).bindInherited (attributes.map Prod.fst) (attributes.map Prod.snd)

/-- The events behind the start of an activation: its attributes are bound one after the other. -/
def bindings (attributes : List (String × V)) : List (Event V) :=
  attributes.reverse.map fun (name, v) => .stored (.inherited name) v

/-! ### One operation -/

/-- An operation acts on its own slot and on nothing else. -/
theorem held?_run (op : Op V) {f : Frame V} (h : (f.instances.map Prod.fst).Nodup) :
    (op.run f).held? = Function.update f.held? op.slot
      (op.leaves (f.locals.map Prod.fst) (f.held? op.slot)) := by
  cases op with
  | setValue v => exact held?_withValue f (some v)
  | takeValue => exact held?_withValue f none
  | modifyValue change => exact held?_withValue f (f.value.map change)
  | modifyInherited name change => exact held?_modifyInherited f name change
  | setLocal name v =>
    refine (held?_withLocal f name (some v)).trans (congrArg _ ?_)
    by_cases hname : f.declares name
    · rw [if_pos hname, Op.leaves, if_pos (declares_iff.1 hname)]
    · rw [if_neg hname, Op.leaves, if_neg (mt declares_iff.2 hname)]
      exact (Option.eq_none_iff_forall_ne_some.2 fun v hv => hname (declares_of_local? hv)).symm
  | takeLocal name => exact (held?_withLocal f name none).trans (congrArg _ (ite_self none))
  | modifyLocal name change => exact held?_modifyLocal f name change
  | setInstance name v => exact held?_setInstance f name v
  | takeInstance name => exact held?_takeInstance f h name

theorem map_fst_locals_run (op : Op V) (f : Frame V) :
    (op.run f).locals.map Prod.fst = f.locals.map Prod.fst := by
  cases op with
  | setLocal name v => exact Entries.keys_replace name (some v) f.locals
  | takeLocal name => exact Entries.keys_replace name none f.locals
  | modifyLocal name change =>
    show (f.modifyLocal name change).locals.map Prod.fst = _
    unfold modifyLocal
    split
    · exact Entries.keys_replace name _ f.locals
    · rfl
  | modifyInherited name change =>
    show (f.modifyInherited name change).locals.map Prod.fst = _
    unfold modifyInherited
    split <;> rfl
  | _ => rfl

theorem nodup_instances_run (op : Op V) {f : Frame V} (h : (f.instances.map Prod.fst).Nodup) :
    ((op.run f).instances.map Prod.fst).Nodup := by
  cases op with
  | setInstance name v => exact Entries.nodup_insert h
  | takeInstance name => exact Entries.nodup_removeSwap h
  | modifyLocal name change =>
    show ((f.modifyLocal name change).instances.map Prod.fst).Nodup
    unfold modifyLocal
    split <;> exact h
  | modifyInherited name change =>
    show ((f.modifyInherited name change).instances.map Prod.fst).Nodup
    unfold modifyInherited
    split <;> exact h
  | _ => exact h

/-! ### Histories -/

theorem latest_stored (slot : Slot) (v : V) (history : List (Event V)) :
    latest (.stored slot v :: history) = Function.update (latest history) slot (some v) :=
  funext fun other => (Function.update_apply _ _ _ other).symm

theorem latest_taken (slot : Slot) (history : List (Event V)) :
    latest (.taken slot :: history) = Function.update (latest history) slot none :=
  funext fun other => (Function.update_apply _ _ _ other).symm

theorem latest_changed (history : List (Event V)) (slot : Slot) (change : V → V) :
    latest (changed history slot change) =
      Function.update (latest history) slot ((latest history slot).map change) := by
  unfold changed
  cases hslot : latest history slot with
  | none => exact (Function.update_eq_self_iff.2 hslot.symm).symm
  | some v => exact latest_stored slot (change v) history

theorem latest_record (op : Op V) (locals : List String) (history : List (Event V)) :
    latest (op.record locals history) = Function.update (latest history) op.slot
      (op.leaves locals (latest history op.slot)) := by
  cases op with
  | setValue | setInstance => exact latest_stored _ _ history
  | takeValue | takeLocal | takeInstance => exact latest_taken _ history
  | modifyValue | modifyInherited | modifyLocal => exact latest_changed history _ _
  | setLocal name v =>
    by_cases hname : name ∈ locals
    · simp only [Op.record, Op.leaves, if_pos hname]
      exact latest_stored _ v history
    · simp only [Op.record, Op.leaves, if_neg hname]
      exact (Function.update_eq_self _ _).symm

/-! ### Runs of operations -/

/-- The frame is one of a rule with the given local variables, the names of its calls are distinct,
and each slot holds what was stored in it last and not taken since. -/
structure Remembers (locals : List String) (history : List (Event V)) (f : Frame V) : Prop where
  locals : f.locals.map Prod.fst = locals
  distinct : (f.instances.map Prod.fst).Nodup
  held : f.held? = latest history

namespace Remembers

variable {locals : List String} {history : List (Event V)} {f : Frame V}

theorem run (h : f.Remembers locals history) (op : Op V) :
    (op.run f).Remembers locals (op.record locals history) where
  locals := (map_fst_locals_run op f).trans h.locals
  distinct := nodup_instances_run op h.distinct
  held := by rw [held?_run op h.distinct, latest_record, h.held, h.locals]

end Remembers

theorem latest_bindings {attributes : List (String × V)} (h : (attributes.map Prod.fst).Nodup) :
    latest (bindings attributes) =
      fun | .inherited name => attributes.lookup name | _ => none := by
  have hlatest (entries : List (String × V)) :
      latest (entries.map fun (name, v) => .stored (.inherited name) v) =
        fun | .inherited name => entries.lookup name | _ => none := by
    induction entries with
    | nil => funext slot; cases slot <;> rfl
    | cons a rest ih =>
      obtain ⟨key, v⟩ := a
      rw [List.map_cons, latest_stored, ih]
      funext slot
      cases slot with
      | inherited name => simp [Function.update_apply, Entries.lookup_cons]
      | _ => rfl
  have hreverse : (attributes.reverse.map Prod.fst).Nodup := by
    rwa [List.map_reverse, List.nodup_reverse]
  rw [bindings, hlatest]
  funext slot
  cases slot with
  | inherited name =>
    ext v
    rw [Entries.lookup_eq_some_iff_mem hreverse, List.mem_reverse, Entries.lookup_eq_some_iff_mem h]
  | _ => rfl

theorem local?_ofLocals (locals : List String) (name : String) :
    (ofLocals locals : Frame V).local? name = none := by
  induction locals with
  | nil => rfl
  | cons first rest ih =>
    show (((first, none) :: rest.map (·, none)).lookup name).join = none
    rw [Entries.lookup_cons]
    split
    · rfl
    · exact ih

/-- At the start of an activation its attributes are found under their names, since these are
distinct. -/
theorem Remembers.entered (locals : List String) {attributes : List (String × V)}
    (h : (attributes.map Prod.fst).Nodup) :
    (Frame.entered locals attributes).Remembers locals (bindings attributes) where
  locals := by simp [Frame.entered, bindInherited, ofLocals, Function.comp_def]
  distinct := List.nodup_nil
  held := by
    have hattributes : (Frame.entered locals attributes).inherited = attributes :=
      (List.zip_of_prod rfl rfl).symm
    rw [latest_bindings h]
    funext slot
    cases slot with
    | inherited name => exact congrArg (List.lookup name) hattributes
    | localVar name => exact local?_ofLocals locals name
    | _ => rfl

theorem Remembers.runs {locals : List String} {history : List (Event V)} {f : Frame V}
    (h : f.Remembers locals history) (ops : List (Op V)) :
    (ops.foldl Op.run f).Remembers locals (ops.foldl (Op.record locals) history) := by
  induction ops generalizing f history with
  | nil => exact h
  | cons op ops ih => exact ih (h.run op)

/-- A frame is four independent finite maps. After any operations on the frame of an activation, and
so between them too, the names of the calls are distinct; every slot holds what was stored in it last
and not taken since, and taking it gives just that; a further operation changes no other slot than
its own; and a local variable can be set exactly if it is declared. -/
theorem operations_remembered (locals : List String) {attributes : List (String × V)}
    (h : (attributes.map Prod.fst).Nodup) (ops : List (Op V)) :
    let f := ops.foldl Op.run (entered locals attributes)
    let history := ops.foldl (Op.record locals) (bindings attributes)
    (f.instances.map Prod.fst).Nodup ∧
      (∀ slot, f.held? slot = latest history slot) ∧
      f.takeValue.1 = latest history .value ∧
      (∀ name, (f.takeLocal name).1 = latest history (.localVar name)) ∧
      (∀ name, (f.takeInstance name).1 = latest history (.returned name)) ∧
      (∀ (op : Op V) slot, slot ≠ op.slot → (op.run f).held? slot = f.held? slot) ∧
      ∀ name v, ((f.setLocal name v).1 ↔ name ∈ locals) ∧
        (f.setLocal name v).2.local? name = if name ∈ locals then some v else none := by
  intro f history
  have hf : f.Remembers locals history := (Remembers.entered locals h).runs ops
  have hheld (slot : Slot) : f.held? slot = latest history slot := congrFun hf.held slot
  refine ⟨hf.distinct, hheld, hheld .value, fun name => hheld (.localVar name),
    fun name => hheld (.returned name), fun op slot hslot => ?_, fun name v => ⟨?_, ?_⟩⟩
  · rw [held?_run op hf.distinct, Function.update_of_ne hslot]
  · rw [← hf.locals]
    exact declares_iff
  · have hset : (f.setLocal name v).2.held? = Function.update f.held? (.localVar name)
        (if f.declares name then some v else none) := held?_withLocal f name (some v)
    show (f.setLocal name v).2.held? (.localVar name) = _
    rw [hset, Function.update_self, ← hf.locals]
    simp only [declares_iff]

/-- A local variable declared twice, a call made again, one taken from the middle and an attribute
changed in place. -/
theorem operations_remembered_calls :
    let attributes := [("file", 7), ("depth", 0)]
    let ops : List (Op Nat) := [.setInstance "a" 1, .setInstance "b" 2, .setInstance "c" 3,
      .setInstance "a" 4, .takeInstance "b", .setLocal "tag" 5, .takeLocal "tag",
      .modifyInherited "depth" (· + 1), .setLocal "undeclared" 6]
    let f := ops.foldl Op.run (entered ["tag", "tag"] attributes)
    (attributes.map Prod.fst).Nodup ∧
      f.instance? "a" = some 4 ∧ f.instance? "b" = none ∧ f.instance? "c" = some 3 ∧
      f.local? "tag" = none ∧ f.inherited? "depth" = some 1 ∧ f.local? "undeclared" = none := by
  intro attributes ops f
  have hdistinct : (attributes.map Prod.fst).Nodup := by decide
  obtain ⟨-, hheld, -⟩ := operations_remembered ["tag", "tag"] hdistinct ops
  exact ⟨hdistinct, hheld (.returned "a"), hheld (.returned "b"), hheld (.returned "c"),
    hheld (.localVar "tag"), hheld (.inherited "depth"), hheld (.localVar "undeclared")⟩

end Frame

end AttrGrammar.Peg

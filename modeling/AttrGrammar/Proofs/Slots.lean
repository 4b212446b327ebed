import AttrGrammar.Peg.Rule
import AttrGrammar.Proofs.Entries
import Mathlib.Logic.Function.Basic

/-! The slots of a frame and what is known of them. A slot is a place where a frame can hold a value:
the value being built, an attribute that was passed down, a local variable, or what a call returned.
Whatever is done to a frame changes what one slot holds and concerns no other. What is known of a
frame is kept as a list of facts, each saying that a slot holds a value of some type: storing a value
adds a fact, and taking one away drops it. -/

namespace AttrGrammar.Peg

/-! ### Slots -/

/-- A place of a frame that can hold a value. -/
inductive Slot where
  | value
  | inherited (name : String)
  | localVar (name : String)
  | returned (instanceName : String)
  deriving DecidableEq

/-- What a slot holds. -/
def Frame.held? {V : Type} (f : Frame V) : Slot → Option V
  | .value => f.value
  | .inherited name => f.inherited? name
  | .localVar name => f.local? name
  | .returned instanceName => f.instance? instanceName

/-! ### What an operation does to what the slots hold -/

namespace Frame

variable {V : Type}

theorem declares_iff {f : Frame V} {name : String} :
    f.declares name ↔ name ∈ f.locals.map Prod.fst := by
  rw [declares, Option.isSome_iff_ne_none, Ne, Entries.lookup_eq_none_iff_notMem, not_not]

/-- Only a local variable that is declared can hold a value. -/
theorem declares_of_local? {f : Frame V} {name : String} {v : V} (h : f.local? name = some v) :
    f.declares name = true := by
  rw [declares, Option.isSome_iff_ne_none]
  intro hnone
  rw [local?, hnone] at h
  cases h

theorem held?_withValue (f : Frame V) (o : Option V) :
    { f with value := o }.held? = Function.update f.held? .value o := by
  funext slot
  cases slot <;> rfl

theorem held?_withLocal (f : Frame V) (name : String) (o : Option V) :
    { f with locals := Entries.replace name o f.locals }.held? =
      Function.update f.held? (.localVar name) (if f.declares name then o else none) := by
  funext slot
  cases slot with
  | localVar other =>
    show ((Entries.replace name o f.locals).lookup other).join = _
    simp only [Function.update_apply, Slot.localVar.injEq]
    rw [Entries.lookup_replace, declares]
    split
    · cases f.locals.lookup name <;> rfl
    · rfl
  | _ => rfl

theorem held?_modifyLocal (f : Frame V) (name : String) (change : V → V) :
    (f.modifyLocal name change).held? =
      Function.update f.held? (.localVar name) ((f.local? name).map change) := by
  unfold modifyLocal
  cases hname : f.local? name with
  | none => exact (Function.update_eq_self_iff.2 hname.symm).symm
  | some v =>
    dsimp only
    rw [held?_withLocal, if_pos (declares_of_local? hname)]
    rfl

theorem held?_modifyInherited (f : Frame V) (name : String) (change : V → V) :
    (f.modifyInherited name change).held? =
      Function.update f.held? (.inherited name) ((f.inherited? name).map change) := by
  unfold modifyInherited
  cases hname : f.inherited? name with
  | none => exact (Function.update_eq_self_iff.2 hname.symm).symm
  | some v =>
    have hlookup : f.inherited.lookup name = some v := hname
    funext slot
    cases slot with
    | inherited other =>
      show (Entries.replace name (change v) f.inherited).lookup other = _
      simp only [Function.update_apply, Slot.inherited.injEq]
      rw [Entries.lookup_replace, hlookup]
      rfl
    | _ => rfl

theorem held?_setInstance (f : Frame V) (name : String) (v : V) :
    (f.setInstance name v).held? = Function.update f.held? (.returned name) (some v) := by
  funext slot
  cases slot with
  | returned other =>
    simp only [Function.update_apply, Slot.returned.injEq]
    exact Entries.lookup_insert _ _ _ _
  | _ => rfl

/-- That the names of the calls are distinct is needed here: a second entry with the name would be
found once the first one is gone. -/
theorem held?_takeInstance (f : Frame V) (h : (f.instances.map Prod.fst).Nodup) (name : String) :
    (f.takeInstance name).2.held? = Function.update f.held? (.returned name) none := by
  funext slot
  cases slot with
  | returned other =>
    simp only [Function.update_apply, Slot.returned.injEq]
    exact Entries.lookup_removeSwap h
  | _ => rfl

end Frame

/-! ### Facts -/

/-- A slot holds a value of a type. -/
structure Fact where
  slot : Slot
  type : String
  deriving DecidableEq

/-- What is left to know when a slot may have changed. -/
def without (slot : Slot) (facts : List Fact) : List Fact := facts.filter (·.slot ≠ slot)

/-- The frame is one of a rule with the given local variables, and the facts are true of it. -/
structure Frame.Fits {V : Type} (f : Frame V) (typeOf : V → String) (locals : List String)
    (facts : List Fact) : Prop where
  locals : f.locals.map Prod.fst = locals
  distinct : (f.instances.map Prod.fst).Nodup
  holds : ∀ fact ∈ facts, ∃ v, f.held? fact.slot = some v ∧ typeOf v = fact.type

namespace Frame.Fits

variable {V : Type} {typeOf : V → String} {locals : List String} {facts facts' : List Fact}
  {f f' : Frame V} {slot : Slot}

theorem mono (h : f.Fits typeOf locals facts) (hsub : facts' ⊆ facts) :
    f.Fits typeOf locals facts' :=
  ⟨h.locals, h.distinct, fun fact hfact => h.holds fact (hsub hfact)⟩

/-- Where one slot has changed, the facts about the others are as true as before. -/
theorem updated {o : Option V} (h : f.Fits typeOf locals facts)
    (hlocals : f'.locals.map Prod.fst = f.locals.map Prod.fst)
    (hdistinct : (f'.instances.map Prod.fst).Nodup)
    (hheld : f'.held? = Function.update f.held? slot o) :
    f'.Fits typeOf locals (without slot facts) := by
  refine ⟨hlocals.trans h.locals, hdistinct, fun fact hfact => ?_⟩
  obtain ⟨hmem, hother⟩ := List.mem_filter.1 hfact
  rw [hheld, Function.update_of_ne (of_decide_eq_true hother)]
  exact h.holds fact hmem

theorem stored {v : V} (h : f.Fits typeOf locals facts)
    (hlocals : f'.locals.map Prod.fst = f.locals.map Prod.fst)
    (hdistinct : (f'.instances.map Prod.fst).Nodup)
    (hheld : f'.held? = Function.update f.held? slot (some v)) :
    f'.Fits typeOf locals (⟨slot, typeOf v⟩ :: without slot facts) := by
  have hrest := h.updated hlocals hdistinct hheld
  have hslot : f'.held? slot = some v := by rw [hheld, Function.update_self]
  exact ⟨hrest.locals, hrest.distinct, List.forall_mem_cons.2 ⟨⟨v, hslot, rfl⟩, hrest.holds⟩⟩

theorem setValue (h : f.Fits typeOf locals facts) (v : V) :
    (f.setValue v).Fits typeOf locals (⟨.value, typeOf v⟩ :: without .value facts) :=
  h.stored rfl h.distinct (held?_withValue f (some v))

theorem takeValue (h : f.Fits typeOf locals facts) :
    f.takeValue.2.Fits typeOf locals (without .value facts) :=
  h.updated rfl h.distinct (held?_withValue f none)

/-- A change within the type of the value. -/
theorem modifyValue (h : f.Fits typeOf locals facts) {change : V → V}
    (hchange : ∀ v, typeOf (change v) = typeOf v) :
    (f.modifyValue change).Fits typeOf locals facts := by
  refine ⟨h.locals, h.distinct, fun fact hfact => ?_⟩
  obtain ⟨v, hv, htype⟩ := h.holds fact hfact
  obtain ⟨slot, type⟩ := fact
  cases slot with
  | value =>
      refine ⟨change v, ?_, (hchange v).trans htype⟩
      show f.value.map change = some (change v)
      rw [show f.value = some v from hv, Option.map_some]
  | _ => exact ⟨v, hv, htype⟩

theorem takeLocal (h : f.Fits typeOf locals facts) (name : String) :
    (f.takeLocal name).2.Fits typeOf locals (without (.localVar name) facts) :=
  h.updated (Entries.keys_replace _ _ _) h.distinct (held?_withLocal f name none)

theorem setLocal (h : f.Fits typeOf locals facts) {name : String} (hname : name ∈ locals) (v : V) :
    (f.setLocal name v).2.Fits typeOf locals
      (⟨.localVar name, typeOf v⟩ :: without (.localVar name) facts) := by
  have hdeclared : f.declares name := declares_iff.2 (h.locals ▸ hname)
  refine h.stored (Entries.keys_replace _ _ _) h.distinct ?_
  exact (held?_withLocal f name (some v)).trans (by rw [if_pos hdeclared])

theorem takeInstance (h : f.Fits typeOf locals facts) (name : String) :
    (f.takeInstance name).2.Fits typeOf locals (without (.returned name) facts) :=
  h.updated rfl (Entries.nodup_removeSwap h.distinct) (held?_takeInstance f h.distinct name)

theorem setInstance (h : f.Fits typeOf locals facts) (name : String) (v : V) :
    (f.setInstance name v).Fits typeOf locals
      (⟨.returned name, typeOf v⟩ :: without (.returned name) facts) :=
  h.stored rfl (Entries.nodup_insert h.distinct) (held?_setInstance f name v)

/-- The frame in which the tree of a rule starts. -/
theorem bound {inherited : List String} {args : List V} {typeOfAttribute : String → String}
    (h : args.map typeOf = inherited.map typeOfAttribute) :
    ((ofLocals locals).bindInherited inherited args).Fits typeOf locals
      (inherited.map fun name => ⟨.inherited name, typeOfAttribute name⟩) := by
  refine ⟨?_, List.nodup_nil, fun fact hfact => ?_⟩
  · simp [ofLocals, bindInherited, Function.comp_def]
  · obtain ⟨name, hname, rfl⟩ := List.mem_map.1 hfact
    clear hfact
    induction inherited generalizing args with
    | nil => cases hname
    | cons first rest ih =>
        obtain ⟨v, values, rfl⟩ : ∃ v values, args = v :: values := by
          cases args with
          | nil => cases h
          | cons v values => exact ⟨v, values, rfl⟩
        obtain ⟨hv, hvalues⟩ := List.cons.inj h
        show ∃ v', ((first, v) :: rest.zip values).lookup name = some v' ∧ _
        rw [Entries.lookup_cons]
        by_cases hfirst : name = first
        · rw [if_pos hfirst, hfirst]
          exact ⟨v, rfl, hv⟩
        · rw [if_neg hfirst]
          exact ih hvalues (by simpa [hfirst] using hname)

end Frame.Fits

end AttrGrammar.Peg

import AttrGrammar.Proofs.Provision

/-! Showing of actions that they do what is claimed of them. Each operation on a context makes one
move: what is taken is there, and what is known afterwards is what the move says. So the proof for an
action follows its operations, with one fact for each. -/

namespace AttrGrammar.Peg

variable {V W : Type} {locals : List String} {facts facts' : List Fact} {slot : Slot} {type : String}
  {rest : List Move}

namespace Move

theorem after_need :
    after locals (need slot type :: rest) facts = some facts' ↔
      ⟨slot, type⟩ ∈ facts ∧ after locals rest facts = some facts' := by
  rw [after]
  split <;> simp [*]

theorem after_take :
    after locals (take slot type :: rest) facts = some facts' ↔
      ⟨slot, type⟩ ∈ facts ∧ after locals rest (without slot facts) = some facts' := by
  rw [after]
  split <;> simp [*]

theorem after_fill :
    after locals (fill slot type :: rest) facts = some facts' ↔
      slot.isOpen locals = true ∧
        after locals rest (⟨slot, type⟩ :: without slot facts) = some facts' := by
  rw [after]
  split <;> simp [*]

end Move

namespace ActionContext.Ready

variable {terms : Terms V W} {ctx : ActionContext V W}

/-- The context with a frame of which something else is known. -/
theorem withFrame (h : ctx.Ready terms locals facts) {f : Frame V}
    (hf : f.Fits terms.typeOf locals facts') : { ctx with frame := f }.Ready terms locals facts' :=
  ⟨h.pass, h.error, h.world, hf⟩

theorem setValue (h : ctx.Ready terms locals facts) (v : V) :
    (ctx.setValue v).Ready terms locals (⟨.value, terms.typeOf v⟩ :: without .value facts) :=
  h.withFrame (h.fits.setValue v)

theorem takeInstance (h : ctx.Ready terms locals facts) (name : String) :
    (ctx.takeInstance name).2.Ready terms locals (without (.returned name) facts) :=
  h.withFrame (h.fits.takeInstance name)

/-- An action that leaves such a context has neither rejected nor raised. -/
theorem performed {raised : Prop} (h : ctx.Ready terms locals facts) :
    ctx.pass = true ∧ (raised ∨ ctx.Ready terms locals facts) :=
  ⟨h.pass, .inr h⟩

end ActionContext.Ready

namespace Terms

variable {terms : Terms V W} {run : ActionContext V W → ActionContext V W}

/-- An action that only sets the value. -/
theorem performs_set
    (hrun : ∀ ctx, ∃ v, run ctx = ctx.setValue v ∧ terms.typeOf v = type) :
    terms.Performs locals run [.fill .value type] := by
  intro ctx facts facts' h hafter
  rw [Move.after_fill] at hafter
  obtain ⟨-, ⟨⟩⟩ := hafter
  obtain ⟨v, hv, rfl⟩ := hrun ctx
  rw [hv]
  exact (h.setValue v).performed

/-- An action that makes the value from what a call returned. -/
theorem performs_make {instanceName returned : String}
    (hrun : ∀ ctx facts, ctx.Ready terms locals facts → ⟨.returned instanceName, returned⟩ ∈ facts →
      ∃ v, run ctx = (ctx.takeInstance instanceName).2.setValue v ∧ terms.typeOf v = type) :
    terms.Performs locals run [.take (.returned instanceName) returned, .fill .value type] := by
  intro ctx facts facts' h hafter
  rw [Move.after_take, Move.after_fill] at hafter
  obtain ⟨hfact, -, ⟨⟩⟩ := hafter
  obtain ⟨v, hv, rfl⟩ := hrun ctx facts h hfact
  rw [hv]
  exact ((h.takeInstance instanceName).setValue v).performed

end Terms

/-- With distinct names each action is the one that is performed under its name. -/
theorem RuleDecl.perform_name {decl : RuleDecl V W} (hnodup : (decl.actions.map Action.name).Nodup)
    {a : Action V W} (ha : a ∈ decl.actions) : decl.perform a.name = a.run := by
  have hfind : decl.actions.find? (·.name == a.name) = some a := by
    generalize decl.actions = actions at hnodup ha
    induction actions with
    | nil => cases ha
    | cons first rest ih =>
        rw [List.map_cons, List.nodup_cons] at hnodup
        rcases List.mem_cons.1 ha with rfl | ha
        · simp
        · have hother : first.name ≠ a.name := fun hname =>
            hnodup.1 (hname ▸ List.mem_map_of_mem ha)
          rw [List.find?_cons_of_neg (by simpa using hother)]
          exact ih hnodup.2 ha
  rw [perform, hfind]
  rfl

/-- Actions that do, one by one, what a list claims. -/
theorem Terms.performs_forall₂ {terms : Terms V W} {decl : RuleDecl V W}
    {entries : List (String × List Move)} (hnodup : (decl.actions.map Action.name).Nodup)
    (h : List.Forall₂ (fun a entry => a.name = entry.1 ∧ terms.Performs decl.locals a.run entry.2)
      decl.actions entries) :
    ∀ entry ∈ entries, terms.Performs decl.locals (decl.perform entry.1) entry.2 := by
  intro entry hentry
  obtain ⟨i, hi, rfl⟩ := List.getElem_of_mem hentry
  obtain ⟨hlength, hgets⟩ := List.forall₂_iff_get.1 h
  obtain ⟨hname, hperforms⟩ := hgets i (hlength ▸ hi) hi
  have ha : decl.actions.get ⟨i, hlength ▸ hi⟩ ∈ decl.actions := List.get_mem _ _
  have hperform := RuleDecl.perform_name hnodup ha
  rw [hname] at hperform
  exact hperform ▸ hperforms

end AttrGrammar.Peg

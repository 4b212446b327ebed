import AttrGrammar.Proofs.Passage
import AttrGrammar.Proofs.SharedRuns
import AttrGrammar.Proofs.Supply
import AttrGrammar.Proofs.WholeReading

/-! Grammars in which nothing is ever missing. If every rule of a grammar passes the check of what is
known in its tree, and every action does with the slots what is claimed of it, then each call finds
its arguments, each action the values it takes, and each rule leaves the value it declares. So no
parse fails for want of one of these, and as no action ever rejects a match, it makes no difference
what would be done in that place. -/

namespace AttrGrammar.Peg

variable {V W ρ ρ' ρ'' α α' α'' : Type}

namespace Parser

theorem map_map (onRule : ρ → ρ') (onAction : α → α') (onRule' : ρ' → ρ'') (onAction' : α' → α'')
    (p : Parser V ρ α) : (p.map onRule onAction).map onRule' onAction' =
      p.map (onRule' ∘ onRule) (onAction' ∘ onAction) := by
  induction p with
  | keyword text continuation => cases continuation <;> rfl
  | _ => simp only [map, Function.comp_apply, *]

theorem level_map (onRule : ρ → ρ') (onAction : α → α') (p : Parser V ρ α) :
    (p.map onRule onAction).level = p.level := by
  induction p with
  | action a body ih => exact ih
  | _ => rfl

/-- How a tree is shown does not depend on what its actions are. -/
theorem render_map [Named ρ'] (onRule : ρ → ρ') (onAction onAction' : α → α') (p : Parser V ρ α) :
    (p.map onRule onAction).render = (p.map onRule onAction').render := by
  induction p with
  | nonterminal rule instanceName args => rfl
  | _ => simp only [map, render, guarded, level_map, *]

end Parser

/-- The action, with something else done in place of rejecting a match. -/
def Action.insteadOfReject (fallback : ActionContext V W → ActionContext V W) (a : Action V W) :
    Action V W where
  name := a.name
  run ctx := if (a.run ctx).pass then a.run ctx else fallback ctx

/-- The rule with other actions. -/
def Rule.mapActions (onAction : Action V W → Action V W) (rule : Rule V W) : Rule V W :=
  { rule with
    definition := rule.definition.map (fun ref => ref) onAction
    actions := rule.actions.map onAction }

/-- The domain with other actions. -/
def Domain.mapActions (onAction : Action V W → Action V W) (d : Domain V W) : Domain V W :=
  { d with rules := d.rules.map (·.mapActions onAction) }

/-- The terms on which the rules and actions of a grammar deal with each other: besides the use of
slots, what type a value has, which worlds there can be, and for which reasons an action may end the
parse, given the text it was run on. -/
structure Terms (V W : Type) extends Usage where
  typeOf : V → String
  worlds : W → Prop
  raises : String → Text.Slice → Prop

/-- The context is one in which nothing has been rejected or raised, and what is known is true. -/
structure ActionContext.Ready (terms : Terms V W) (locals : List String) (facts : List Fact)
    (ctx : ActionContext V W) : Prop where
  pass : ctx.pass = true
  error : ctx.error = none
  world : terms.worlds ctx.world
  fits : ctx.frame.Fits terms.typeOf locals facts

/-- An action that finds what its moves need does not reject; it raises for a reason that is allowed,
or it does what the moves say. -/
def Terms.Performs (terms : Terms V W) (locals : List String)
    (run : ActionContext V W → ActionContext V W) (moves : List Move) : Prop :=
  ∀ ctx facts facts', ctx.Ready terms locals facts → Move.after locals moves facts = some facts' →
    (run ctx).pass = true ∧
      ((∃ reason, (run ctx).error = some reason ∧ terms.raises reason ctx.text) ∨
        (run ctx).Ready terms locals facts')

/-- Declared rules that keep to the terms. -/
structure Terms.Kept (terms : Terms V W) (decls : List (RuleDecl V W)) : Prop where
  performs : ∀ decl ∈ decls, ∀ entry ∈ terms.moves decl.name,
    terms.Performs decl.locals (decl.perform entry.1) entry.2
  handsOn : ∀ decl ∈ decls, decl.definition.Calls (HandsOn decls)
  passes : ∀ decl ∈ decls, decl.passes terms.toUsage decls = true

/-- Attributes that are known to be there can be handed on. -/
theorem Usage.mapM_forward {usage : Usage} {typeOf : V → String} {locals : List String}
    {facts : List Fact} {f : Frame V} (h : f.Fits typeOf locals facts) {target : RuleDecl V W}
    (hentry : ∀ fact ∈ usage.entry target, fact ∈ facts) :
    ∃ values, (target.inherited.map forward).mapM (· f) = some values ∧
      values.map typeOf = target.inherited.map usage.attributeType := by
  unfold entry at hentry
  generalize target.inherited = names at hentry ⊢
  induction names with
  | nil => exact ⟨[], rfl, rfl⟩
  | cons name rest ih =>
      rw [List.map_cons, List.forall_mem_cons] at hentry
      obtain ⟨v, hv, htype⟩ := h.holds _ hentry.1
      obtain ⟨values, hvalues, htypes⟩ := ih hentry.2
      refine ⟨v :: values, ?_, by rw [List.map_cons, List.map_cons, htype, htypes]⟩
      have hforward : forward name f = some v := hv
      rw [List.map_cons, List.mapM_cons, hforward, hvalues]
      rfl

end AttrGrammar.Peg

namespace AttrGrammar.Parse
open Text Scan Peg

variable {V W α : Type} {terms : Terms V W} {source : Source} {setting : Setting V W}
  {locals : List String} {base stack : List V} {f : Frame V} {k k' : Known}

/-- The setting with other actions. -/
def Setting.mapActions (onAction : Action V W → Action V W) (setting : Setting V W) :
    Setting V W :=
  { setting with rules := setting.rules.map (·.mapActions onAction) }

theorem Setting.rule_mapActions {setting : Setting V W} {i : Nat} {rule : Rule V W}
    (h : setting.rules[i]? = some rule) (onAction : Action V W → Action V W) :
    (setting.mapActions onAction).rules[i]? = some (rule.mapActions onAction) := by
  simp [mapActions, h]

/-- The values on the stack and the frame are the given ones. -/
def Store.Is (terms : Terms V W) (stack : List V) (f : Frame V) (σ : Store V W) : Prop :=
  σ.stack = stack ∧ σ.frame = f ∧ terms.worlds σ.world

/-- The values on the stack are the given ones, and what is known is true of the frame. -/
def Store.Knows (terms : Terms V W) (locals : List String) (base : List V) (k : Known)
    (σ : Store V W) : Prop :=
  σ.stack = base ∧ k.Of terms.typeOf locals σ.frame ∧ terms.worlds σ.world

/-- The store after a rule has hit: the value that it declares lies on the stack. -/
def Store.Answered (terms : Terms V W) (decl : RuleDecl V W) (base : List V) (f : Frame V)
    (σ : Store V W) : Prop :=
  ∃ values : List V, values.map terms.typeOf = decl.valueType.toList ∧ σ.Is terms (values ++ base) f

namespace Store

variable {σ : Store V W}

/-- Of a place that is not reached nothing at all is known. -/
theorem not_knows_none : ¬ σ.Knows terms locals base none := by
  rintro ⟨-, ⟨_, hnone, -⟩, -⟩
  cases hnone

theorem Knows.meet_left (h : σ.Knows terms locals base k) : σ.Knows terms locals base (k.meet k') :=
  ⟨h.1, h.2.1.meet_left, h.2.2⟩

theorem Knows.meet_right (h : σ.Knows terms locals base k') :
    σ.Knows terms locals base (k.meet k') :=
  ⟨h.1, h.2.1.meet_right, h.2.2⟩

theorem Knows.covered (hcovers : k.covers k') (h : σ.Knows terms locals base k) :
    σ.Knows terms locals base k' :=
  ⟨h.1, h.2.1.covered hcovers, h.2.2⟩

/-- What is known at the end of a tree that leaves the value its rule declares. -/
theorem Knows.value {decl : RuleDecl V W} {type : String} (h : σ.Knows terms locals base k)
    (hcovers : k.covers (some (decl.valueType.toList.map fun type => ⟨.value, type⟩)))
    (htype : decl.valueType = some type) :
    ∃ v, σ.frame.value = some v ∧ terms.typeOf v = type := by
  obtain ⟨_, ⟨⟩, hfits⟩ := h.2.1.covered hcovers
  exact hfits.holds ⟨.value, type⟩ (by simp [htype])

end Store

namespace Step

open Store

/-! ### Rules with other actions -/

section

variable (onAction : Action V W → Action V W) (rule : Rule V W)

theorem pushArguments_mapActions (index : Nat) (args : List (Argument V)) :
    pushArguments (rule.mapActions onAction) index args = pushArguments rule index args := by
  induction args generalizing index with
  | nil => rfl
  | cons argument rest ih =>
      rw [pushArguments, pushArguments]
      simp only [ih]
      rfl

theorem popArguments_mapActions (n : Nat) (taken : List V) :
    popArguments (rule.mapActions onAction) n taken = popArguments rule n taken := by
  induction n generalizing taken with
  | zero => rfl
  | succ n ih =>
      rw [popArguments, popArguments]
      simp only [ih]
      rfl

theorem nonterminal_mapActions (instanceName : String) (args : List (Argument V))
    (body : Step V W Match) : nonterminal (rule.mapActions onAction) instanceName args body =
      nonterminal rule instanceName args body := by
  unfold nonterminal
  rw [pushArguments_mapActions]
  rfl

theorem activate_mapActions (setting : Setting V W) (tree : Step V W Match) :
    activate (setting.mapActions onAction) (rule.mapActions onAction) tree =
      activate setting rule tree := by
  have hevaluate (start : Position) :
      evaluate (rule.mapActions onAction) start tree = evaluate rule start tree := by
    unfold evaluate
    rw [popArguments_mapActions]
    rfl
  unfold activate
  simp only [hevaluate]
  rfl

end

/-! ### Actions -/

/-- Running an action comes down to what it makes of the context. -/
theorem act_apply (setting : Setting V W) (run : ActionContext V W → ActionContext V W)
    (start : Position) (m : Match) (s : State V W) :
    act setting run start m s = (match (run (s.actionContext setting start)).error with
      | some reason => fail (.exception reason
          (setting.location (setting.source.span start s.scanner.position)))
      | none => if (run (s.actionContext setting start)).pass then pure m else missAt start)
        (s.acted (run (s.actionContext setting start))) := rfl

namespace Meets

variable {P : Store V W → Prop} {x x' : Step V W Match}

/-- An action that finds what it needs. It makes no difference what else it does where it would
reject. -/
theorem act {run run' : ActionContext V W → ActionContext V W} {moves : List Move}
    {facts facts' : List Fact} (hperforms : terms.Performs locals run moves)
    (hsame : ∀ ctx, (run ctx).pass = true → run' ctx = run ctx)
    (hafter : Move.after locals moves facts = some facts') (start : Position) (n : Nat) :
    Meets setting.source terms.raises (Knows terms locals base (some facts))
      (Step.act setting run start (.hit n)) (Step.act setting run' start (.hit n))
      (ends (Knows terms locals base (some facts')) P) := by
  intro s hs
  obtain ⟨hstack, ⟨_, ⟨⟩, hfits⟩, hworld⟩ := hs
  have hready : (s.actionContext setting start).Ready terms locals facts :=
    ⟨rfl, rfl, hworld, hfits⟩
  obtain ⟨hpass, hdone⟩ := hperforms _ facts facts' hready hafter
  unfold Ensures
  rw [act_apply, act_apply, hsame _ hpass, hpass]
  refine ⟨rfl, ?_⟩
  rcases hdone with ⟨reason, herror, hraises⟩ | hready'
  · rw [herror]
    exact fun _ => .exception reason start s.scanner.position hraises
  · rw [hready'.error]
    exact ⟨hstack, ⟨facts', rfl, hready'.fits⟩, hready'.world⟩

/-! ### Calls -/

theorem pushArguments (rule : Rule V W) (index : Nat) {args : List (Argument V)} {values : List V}
    (hvalues : args.mapM (· f) = some values) :
    Meets source terms.raises (Is terms base f) (Step.pushArguments rule index args)
      (Step.pushArguments rule index args) fun _ => Is terms (values.reverse ++ base) f := by
  induction args generalizing index base values with
  | nil =>
      cases hvalues
      exact pure fun _ => id
  | cons argument rest ih =>
      rw [List.mapM_cons] at hvalues
      obtain ⟨v, hv, hrest⟩ := Option.bind_eq_some_iff.1 hvalues
      obtain ⟨values', hvalues', ⟨⟩⟩ := Option.bind_eq_some_iff.1 hrest
      refine look fun s hs => ?_
      have hframe : s.frame = f := hs.2.1
      rw [hframe, hv]
      refine bind (push (Q := Is terms (v :: base) f) v fun σ hσ => ?_) fun _ => ?_
      · obtain rfl := hσ
        exact ⟨congrArg (v :: ·) hs.1, hs.2⟩
      · rw [List.reverse_cons, List.append_assoc]
        exact ih (index + 1) hvalues'

/-- The values that a call has left are dropped. -/
theorem dropAnswered (decl : RuleDecl V W) :
    Meets source terms.raises (Answered terms decl base f) (Step.dropAbove base.length)
      (Step.dropAbove base.length) fun _ => Is terms base f := by
  refine dropAbove _ fun σ hσ => ?_
  obtain ⟨values, -, hstack, hrest⟩ := hσ
  refine ⟨?_, hrest⟩
  dsimp only
  rw [hstack, List.length_append, Nat.add_sub_cancel, List.drop_left]

theorem dropNothing : Meets source terms.raises (Is terms base f) (Step.dropAbove base.length)
    (Step.dropAbove base.length) fun _ => Is terms base f := by
  refine dropAbove _ fun σ hσ => ?_
  refine ⟨?_, hσ.2⟩
  dsimp only
  rw [hσ.1, Nat.sub_self, List.drop_zero]

/-- The height of a stack that is known. -/
theorem heightOf {β : Type} {g g' : Nat → Step V W β} {A : β → Store V W → Prop}
    (h : Meets source terms.raises (Is terms base f) (g base.length) (g' base.length) A) :
    Meets source terms.raises (Is terms base f) (Step.height >>= g) (Step.height >>= g') A := by
  refine bind height fun n => ?_
  refine (assuming (p := n = base.length) fun hn => ?_).mono
    (fun σ hσ => ⟨hσ.1, hσ.2.trans (congrArg List.length hσ.1.1)⟩) fun _ _ => id
  rw [hn]
  exact h

variable {decl : RuleDecl V W}

theorem lookAhead
    (hx : Meets source terms.raises (Is terms base f) x x' (ends (Answered terms decl base f)
      (Is terms base f))) :
    Meets source terms.raises (Is terms base f) (Step.lookAhead x) (Step.lookAhead x')
      fun _ => Is terms base f := by
  refine bind place fun after => heightOf (bindMatch hx (fun n => ?_) ?_)
  · exact bind (dropAnswered decl) fun _ => bind (rewind after) fun _ => pure fun _ => id
  · exact bind dropNothing fun _ => bind (rewind after) fun _ => pure fun _ => id

theorem skip {call call' : RuleId → Step V W Match}
    (hcall : ∀ rule ∈ setting.skipRule, ∃ decl : RuleDecl V W,
      Meets source terms.raises (Is terms base f) (call rule) (call' rule)
        (ends (Answered terms decl base f) (Is terms base f))) :
    Meets source terms.raises (Is terms base f) (Step.skip setting call) (Step.skip setting call')
      fun _ => Is terms base f := by
  refine look fun s hs => ?_
  split
  · exact pure fun σ hσ => hσ ▸ hs
  · next rule hactive =>
    obtain ⟨decl, hskip⟩ := hcall rule (Scanner.activeSkip_eq_some.1 hactive).2.2
    refine mono (P := Is terms base f) ?_ (fun σ hσ => hσ ▸ hs) fun _ _ => id
    refine bind place fun start => heightOf (bindMatch (inSkip hskip) (fun n => ?_) ?_)
    · exact dropAnswered decl
    · exact bind (rewind start) fun _ => dropNothing

end Meets

/-- From arguments of the types that a rule inherits, two steps do the same; they take the arguments
away and leave the value that the rule declares. -/
def Serves (source : Source) (terms : Terms V W) (decl : RuleDecl V W) (x x' : Step V W Match) :
    Prop :=
  ∀ (args base : List V) (f : Frame V),
    args.map terms.typeOf = decl.inherited.map terms.attributeType →
      Meets source terms.raises (Is terms (args.reverse ++ base) f) x x'
        (ends (Answered terms decl base f) (Is terms base f))

namespace Serves

variable {decl : RuleDecl V W} {x x' : Step V W Match}

/-- A rule that inherits nothing. -/
theorem plain (h : Serves source terms decl x x') (hinherited : decl.inherited = [])
    (base : List V) (f : Frame V) : Meets source terms.raises (Is terms base f) x x'
      (ends (Answered terms decl base f) (Is terms base f)) :=
  h [] base f (by rw [hinherited]; rfl)

end Serves

namespace Meets

variable {decl : RuleDecl V W} {rule : Rule V W} {x x' : Step V W Match}

/-- What is known of a frame is known of each frame of which it is true. -/
theorem ofFrames {x x' : Step V W α} {A : α → Store V W → Prop}
    (h : ∀ f, k.Of terms.typeOf locals f → Meets source terms.raises (Is terms base f) x x' A) :
    Meets source terms.raises (Knows terms locals base k) x x' A :=
  fun s hs => h s.frame hs.2.1 s ⟨hs.1, rfl, hs.2.2⟩

/-- A step that leaves the frame alone leaves what is known of it. -/
theorem ofKept {x x' : Step V W α}
    (h : ∀ f, Meets source terms.raises (Is terms base f) x x' fun _ => Is terms base f) :
    Meets source terms.raises (Knows terms locals base k) x x' fun _ => Knows terms locals base k :=
  ofFrames fun f hf => (h f).mono (fun _ => id) fun _ _ hσ => ⟨hσ.1, hσ.2.1 ▸ hf, hσ.2.2⟩

/-- A call of a rule that finds its arguments. -/
theorem nonterminal {facts : List Fact} {args : List (Argument V)} (instanceName : String)
    (hvalueType : rule.valueType = decl.valueType) (hserves : Serves source terms decl x x')
    (hargs : args = decl.inherited.map forward)
    (hentry : ∀ fact ∈ terms.entry decl, fact ∈ facts) :
    Meets source terms.raises (Knows terms locals base (some facts))
      (Step.nonterminal rule instanceName args x) (Step.nonterminal rule instanceName args x')
      (ends (Knows terms locals base (some (decl.stored instanceName facts)))
        (Knows terms locals base (some facts))) := by
  refine ofFrames fun f hf => ?_
  obtain ⟨_, ⟨⟩, hfits⟩ := hf
  obtain ⟨values, hvalues, htypes⟩ := Usage.mapM_forward hfits hentry
  rw [hargs]
  refine bind (pushArguments rule 0 hvalues) fun _ => bindMatch (hserves values base f htypes)
    (fun n => ?_) ?_
  · split
    · next hvalued =>
      obtain ⟨type, htype⟩ := Rule.hasValue_eq_true_iff.1 hvalued
      rw [hvalueType] at htype
      refine bind (pop rule (A := fun v σ => terms.typeOf v = type ∧ σ.Is terms base f)
        fun σ hσ => ?_) fun v => ?_
      · obtain ⟨values, hmap, hstack, hrest⟩ := hσ
        rw [htype] at hmap
        obtain ⟨v, rfl, hv⟩ := List.map_eq_singleton_iff.1 hmap
        exact ⟨v, base, hstack, hv, rfl, hrest⟩
      · refine bind (modifyFrame (Q := Knows terms locals base
          (some (decl.stored instanceName facts))) _ fun σ hσ => ?_) fun _ => hit n
        obtain ⟨hv, hstack, hframe, hworld⟩ := hσ
        refine ⟨hstack, ⟨_, rfl, ?_⟩, hworld⟩
        rw [RuleDecl.stored, htype, ← hv]
        dsimp only
        rw [hframe]
        exact hfits.setInstance instanceName v
    · next hvalued =>
      have hnone : decl.valueType = none := hvalueType ▸ Rule.not_hasValue_iff.1 hvalued
      refine pure fun σ hσ => ?_
      obtain ⟨values, hmap, hstack, hframe, hworld⟩ := hσ
      rw [hnone] at hmap
      obtain rfl := List.map_eq_nil_iff.1 hmap
      refine ⟨hstack, ⟨_, rfl, ?_⟩, hworld⟩
      rw [RuleDecl.stored, hnone, hframe]
      exact hfits
  · exact pure fun σ hσ => ⟨hσ.1, ⟨facts, rfl, hσ.2.1 ▸ hfits⟩, hσ.2.2⟩

theorem popArguments {args : List V} (hlength : args.length = rule.inherited.length) :
    Meets source terms.raises (Is terms (args.reverse ++ base) f)
      (Step.popArguments rule rule.inherited.length [])
      (Step.popArguments rule rule.inherited.length [])
      fun values σ => values = args ∧ σ.Is terms base f := by
  intro s hs
  have hpop : Step.popArguments rule rule.inherited.length [] s = .ok args (s.owning base) := by
    have h := popArguments_apply rule [] hs.1
    rwa [List.length_reverse, hlength, List.reverse_reverse, List.append_nil] at h
  rw [ensures_iff_of_ok hpop]
  exact ⟨rfl, rfl, rfl, hs.2⟩

/-- A tree that runs in a frame of its own. What has become of that frame makes no difference. -/
theorem inOwnFrame {stack : List V} {frame : Frame V}
    (hx : Meets source terms.raises (Is terms stack frame) x x'
      (ends (fun σ => ∃ g, Answered terms decl base g σ) fun σ => ∃ g, Is terms base g σ)) :
    Meets source terms.raises (Is terms stack f) (Step.inFrame frame x) (Step.inFrame frame x')
      (ends (Answered terms decl base f) (Is terms base f)) := by
  have hframed : Meets source terms.raises (Is terms stack f) (Step.inFrame frame x)
      (Step.inFrame frame x') fun m σ => σ.frame = f ∧ ∃ inner, ends _ _ m { σ with frame := inner } :=
    inFrame hx fun σ hσ => ⟨⟨hσ.1, rfl, hσ.2.2⟩, hσ.2.1⟩
  refine hframed.mono (fun _ => id) fun m σ hσ => ?_
  obtain ⟨hframe, inner, hends⟩ := hσ
  cases m with
  | hit n =>
      obtain ⟨g, values, hvalues, hstack, -, hworld⟩ := hends
      exact ⟨values, hvalues, hstack, hframe, hworld⟩
  | miss =>
      obtain ⟨g, hstack, -, hworld⟩ := hends
      exact ⟨hstack, hframe, hworld⟩

/-- Running the tree of a rule that leaves the value it declares. -/
theorem evaluate {hit miss : Known} (start : Position) (hinherited : rule.inherited = decl.inherited)
    (hlocals : rule.locals = decl.locals) (hvalueType : rule.valueType = decl.valueType)
    (hvalue : hit.covers (some (decl.valueType.toList.map fun type => ⟨.value, type⟩)))
    {args : List V} (hargs : args.map terms.typeOf = decl.inherited.map terms.attributeType)
    (htree : Meets source terms.raises
      (Knows terms decl.locals base (some (terms.entry decl))) x x'
      (ends (Knows terms decl.locals base hit) (Knows terms decl.locals base miss))) :
    Meets source terms.raises (Is terms (args.reverse ++ base) f) (Step.evaluate rule start x)
      (Step.evaluate rule start x') (ends (Answered terms decl base f) (Is terms base f)) := by
  have hlength : args.length = rule.inherited.length := by
    have h := congrArg List.length hargs
    rwa [List.length_map, List.length_map, ← hinherited] at h
  refine inOwnFrame (bind (popArguments hlength) fun values => ?_)
  refine bind (modifyFrame (Q := Knows terms decl.locals base (some (terms.entry decl))) _
    fun σ hσ => ?_) fun _ => bindMatch htree (fun n => ?_) ?_
  · obtain ⟨rfl, hstack, hframe, hworld⟩ := hσ
    refine ⟨hstack, ⟨_, rfl, ?_⟩, hworld⟩
    dsimp only
    rw [hframe, hlocals, hinherited]
    exact .bound hargs
  · rw [if_pos (Match.isHit_hit n)]
    split
    · next hvalued =>
      obtain ⟨type, htype⟩ := Rule.hasValue_eq_true_iff.1 hvalued
      rw [hvalueType] at htype
      refine look fun s hs => ?_
      obtain ⟨v, (hheld : s.frame.value = some v), hvtype⟩ := hs.value hvalue htype
      simp only [Frame.takeValue, hheld]
      refine bind (modifyFrame (Q := fun σ => ∃ g, Is terms base g σ) _ fun σ hσ => ?_)
        fun _ => bind (push (Q := fun σ => ∃ g, Answered terms decl base g σ) v fun σ hσ => ?_)
          fun _ => matchedSince start
      · subst hσ
        exact ⟨_, hs.1, rfl, hs.2.2⟩
      · obtain ⟨g, hstack, hrest⟩ := hσ
        refine ⟨g, [v], ?_, congrArg (v :: ·) hstack, hrest⟩
        rw [htype, List.map_singleton, hvtype, Option.toList_some]
    · next hvalued =>
      have hnone : decl.valueType = none := hvalueType ▸ Rule.not_hasValue_iff.1 hvalued
      refine mono (P := fun σ => ∃ g, Answered terms decl base g σ)
        (matchedSince start) (fun σ hσ => ?_) fun _ _ => id
      exact ⟨σ.frame, [], by rw [hnone]; rfl, hσ.1, rfl, hσ.2.2⟩
  · exact mono (P := fun σ => ∃ g, Is terms base g σ) (missAt start)
      (fun σ hσ => ⟨σ.frame, hσ.1, rfl, hσ.2.2⟩) fun _ _ => id

end Meets

/-! ### Trees and rules -/

/-- An exchange of the actions in the tree of a declared rule: the setting and the calls before, those
after, and the stack below. Rules keep to the terms, the new actions differ where the old ones reject,
and called rules do the same as before. -/
structure Exchange (V W : Type) where
  terms : Terms V W
  setting : Setting V W
  decls : List (RuleDecl V W)
  decl : RuleDecl V W
  onAction : Action V W → Action V W
  call : RuleId → Step V W Match
  call' : RuleId → Step V W Match
  base : List V
  kept : terms.Kept decls
  table : Tabulates setting.rules decls
  declared : decl ∈ decls
  same : ∀ a ctx, (a.run ctx).pass = true → (onAction a).run ctx = a.run ctx
  serves : ∀ name target, decls.find? (·.name == name) = some target →
    Serves setting.source terms target (call (RuleDecl.place decls name))
      (call' (RuleDecl.place decls name))
  skips : ∀ f, Meets setting.source terms.raises (Is terms base f) (skip setting call)
    (skip (setting.mapActions onAction) call') fun _ => Is terms base f

namespace Exchange

variable (x : Exchange V W)

/-- A declared tree, with its rules in their places and its actions looked up. -/
def linked (p : Definition V) : LinkedParser V W :=
  p.map (fun name => ⟨name, RuleDecl.place x.decls name⟩) fun name => ⟨name, x.decl.perform name⟩

/-- Something is known of the frame of the rule, and the stack is the one below. -/
def Knows (k : Known) : Store V W → Prop := Store.Knows x.terms x.decl.locals x.base k

/-- The tree does the same after the exchange, and what is known comes out as its flow tells. -/
def Follows (p : Definition V) : Prop :=
  ∀ k hit miss, p.flow x.terms.toUsage x.decls x.decl k = some (hit, miss) →
    Meets x.setting.source x.terms.raises (x.Knows k) (evalParser x.setting x.call (x.linked p))
      (evalParser (x.setting.mapActions x.onAction) x.call'
        ((x.linked p).map (fun ref => ref) x.onAction))
      (ends (x.Knows hit) (x.Knows miss))

theorem gap (k : Known) : Meets x.setting.source x.terms.raises (x.Knows k) (skip x.setting x.call)
    (skip (x.setting.mapActions x.onAction) x.call') fun _ => x.Knows k := .ofKept x.skips

namespace Follows

variable {x} {body l r : Definition V}

theorem keyword {word : String} (continuation : Option String) :
    x.Follows (.keyword word continuation) := by
  intro k hit miss hflow
  cases continuation with
  | none =>
      cases hflow
      exact .keyword _ .seesIdCont
  | some rule =>
      obtain ⟨target, htarget, hflow⟩ := Option.bind_eq_some_iff.1 hflow
      obtain ⟨hinherited, ⟨⟩⟩ := Option.ite_none_right_eq_some.1 hflow
      have hserves := (x.serves rule target htarget).plain (List.isEmpty_iff.1 hinherited) x.base
      exact .keyword _ (.ofKept fun f => .lookAhead (hserves f))

theorem keywordList (hbody : x.Follows body) (words : List String) :
    x.Follows (.keywordList body words) := by
  intro k hit miss hflow
  obtain ⟨⟨hit', miss'⟩, hselector, ⟨⟩⟩ := Option.bind_eq_some_iff.1 hflow
  exact .keywordList ((hbody _ _ _ hselector).imp (fun _ h => h) fun _ h => h.meet_left)
    (fun _ h => h.meet_right) words

theorem sequence (hl : x.Follows l) (hr : x.Follows r) : x.Follows (.sequence l r) := by
  intro k hit miss hflow
  obtain ⟨⟨hit', miss'⟩, hleft, hflow⟩ := Option.bind_eq_some_iff.1 hflow
  obtain ⟨⟨hit'', miss''⟩, hright, ⟨⟩⟩ := Option.bind_eq_some_iff.1 hflow
  exact .sequence ((hl _ _ _ hleft).imp (fun _ h => h) fun _ h => h.meet_left) (x.gap hit')
    ((hr _ _ _ hright).imp (fun _ h => h) fun _ h => h.meet_right)

theorem alternative (hl : x.Follows l) (hr : x.Follows r) : x.Follows (.alternative l r) := by
  intro k hit miss hflow
  obtain ⟨⟨hit', miss'⟩, hleft, hflow⟩ := Option.bind_eq_some_iff.1 hflow
  obtain ⟨⟨hit'', miss''⟩, hright, ⟨⟩⟩ := Option.bind_eq_some_iff.1 hflow
  exact .alternative ((hl _ _ _ hleft).imp (fun _ h => h.meet_left) fun _ h => h)
    ((hr _ _ _ hright).imp (fun _ h => h.meet_right) fun _ h => h)

theorem optional (hbody : x.Follows body) : x.Follows (.optional body) := by
  intro k hit miss hflow
  obtain ⟨⟨hit', miss'⟩, hinner, ⟨⟩⟩ := Option.bind_eq_some_iff.1 hflow
  exact .optional ((hbody _ _ _ hinner).imp (fun _ h => h.meet_left) fun _ h => h.meet_right)

/-- What is known before a round and kept by it is known before the next one. -/
theorem round {k hit miss : Known} (hbody : x.Follows body)
    (hflow : body.flow x.terms.toUsage x.decls x.decl k = some (hit, miss))
    (hcovers : (hit.meet miss).covers k) :
    Meets x.setting.source x.terms.raises (x.Knows k) (evalParser x.setting x.call (x.linked body))
      (evalParser (x.setting.mapActions x.onAction) x.call'
        ((x.linked body).map (fun ref => ref) x.onAction)) (ends (x.Knows k) (x.Knows k)) :=
  (hbody _ _ _ hflow).imp (fun _ h => h.meet_left.covered hcovers)
    fun _ h => h.meet_right.covered hcovers

theorem star (hbody : x.Follows body) : x.Follows (.star body) := by
  intro k hit miss hflow
  obtain ⟨⟨hit', miss'⟩, hinner, hflow⟩ := Option.bind_eq_some_iff.1 hflow
  obtain ⟨hcovers, ⟨⟩⟩ := Option.ite_none_right_eq_some.1 hflow
  exact .star (x.gap k) (hbody.round hinner hcovers)

theorem plus (hbody : x.Follows body) : x.Follows (.plus body) := by
  intro k hit miss hflow
  obtain ⟨⟨hit', miss'⟩, hinner, hflow⟩ := Option.bind_eq_some_iff.1 hflow
  obtain ⟨hcovers, ⟨⟩⟩ := Option.ite_none_right_eq_some.1 hflow
  exact .repeated (x.gap k) (hbody.round hinner hcovers) 1

theorem difference (hl : x.Follows l) (hr : x.Follows r) : x.Follows (.difference l r) := by
  intro k hit miss hflow
  obtain ⟨⟨hit', miss'⟩, hleft, hflow⟩ := Option.bind_eq_some_iff.1 hflow
  obtain ⟨⟨hit'', miss''⟩, hright, ⟨⟩⟩ := Option.bind_eq_some_iff.1 hflow
  exact .difference ((hl _ _ _ hleft).imp (fun _ h => h) fun _ h => h.meet_left) (hr _ _ _ hright)
    (fun _ h => ⟨h.meet_left, h.meet_right⟩) fun _ h => h.meet_right

theorem exclusiveOr (hl : x.Follows l) (hr : x.Follows r) : x.Follows (.exclusiveOr l r) := by
  intro k hit miss hflow
  obtain ⟨⟨hit', miss'⟩, hleft, hflow⟩ := Option.bind_eq_some_iff.1 hflow
  obtain ⟨⟨both, left⟩, hright, hflow⟩ := Option.bind_eq_some_iff.1 hflow
  obtain ⟨⟨right, neither⟩, hright', ⟨⟩⟩ := Option.bind_eq_some_iff.1 hflow
  exact .exclusiveOr (hl _ _ _ hleft)
    ((hr _ _ _ hright).imp (fun _ h => h.meet_left) fun _ h => h.meet_left)
    ((hr _ _ _ hright').imp (fun _ h => h.meet_right) fun _ h => h.meet_right)

theorem intersection (hl : x.Follows l) (hr : x.Follows r) : x.Follows (.intersection l r) := by
  intro k hit miss hflow
  obtain ⟨⟨hit', miss'⟩, hleft, hflow⟩ := Option.bind_eq_some_iff.1 hflow
  obtain ⟨⟨hit'', miss''⟩, hright, ⟨⟩⟩ := Option.bind_eq_some_iff.1 hflow
  exact .intersection ((hl _ _ _ hleft).imp (fun _ h => h) fun _ h => h.meet_left)
    ((hr _ _ _ hright).imp (fun _ h => h) fun _ h => h.meet_right.meet_right)
    fun _ h => h.meet_left.meet_right

theorem list (hl : x.Follows l) (hr : x.Follows r) : x.Follows (.list l r) := by
  intro k hit miss hflow
  obtain ⟨⟨hit', miss'⟩, helement, hflow⟩ := Option.bind_eq_some_iff.1 hflow
  obtain ⟨⟨hit'', miss''⟩, hseparator, hflow⟩ := Option.bind_eq_some_iff.1 hflow
  obtain ⟨hcovers, ⟨⟩⟩ := Option.ite_none_right_eq_some.1 hflow
  exact .list (x.gap k)
    ((hl _ _ _ helement).imp (fun _ h => h.meet_left.meet_left.covered hcovers)
      fun _ h => h.meet_right.meet_left.covered hcovers)
    ((hr _ _ _ hseparator).imp (fun _ h => h.meet_left.meet_right.covered hcovers)
      fun _ h => h.meet_right.meet_right.covered hcovers)

theorem expectation (hbody : x.Follows body) : x.Follows (.expectation body) := by
  intro k hit miss hflow
  obtain ⟨⟨hit', miss'⟩, hinner, ⟨⟩⟩ := Option.bind_eq_some_iff.1 hflow
  -- The error shows the tree, and that does not depend on the actions.
  have hrender : ((x.linked body).map (fun ref => ref) x.onAction).render =
      (x.linked body).render := by
    rw [linked, Parser.map_map]
    exact Parser.render_map _ _ _ body
  simp only [linked, Parser.map, evalParser]
  rw [← linked, hrender]
  exact .expectation (hbody _ _ _ hinner) _

theorem action (name : String) (hbody : x.Follows body) : x.Follows (.action name body) := by
  intro k hit miss hflow
  obtain ⟨⟨hit', miss'⟩, hinner, hflow⟩ := Option.bind_eq_some_iff.1 hflow
  obtain ⟨moves, hmoves, hflow⟩ := Option.bind_eq_some_iff.1 hflow
  cases hit' with
  | none =>
      cases hflow
      exact .action (hbody _ _ _ hinner) fun _ _ => .absurd fun _ => not_knows_none
  | some facts =>
      obtain ⟨facts', hafter, ⟨⟩⟩ := Option.bind_eq_some_iff.1 hflow
      obtain ⟨before, behind, hsplit, -⟩ := List.lookup_eq_some_iff.1 hmoves
      have hperforms := x.kept.performs x.decl x.declared (name, moves) (by rw [hsplit]; simp)
      exact .action (hbody _ _ _ hinner)
        (Meets.act hperforms (x.same ⟨name, x.decl.perform name⟩) hafter)

theorem nonterminal {rule : String} (instanceName : String) {args : List (Argument V)}
    (hargs : HandsOn x.decls rule args) : x.Follows (.nonterminal rule instanceName args) := by
  intro k hit miss hflow
  obtain ⟨target, htarget, hflow⟩ := Option.bind_eq_some_iff.1 hflow
  obtain ⟨entry, hentry, -, -, hvalueType, -⟩ := x.table.exists_rule htarget
  have hentry' := Setting.rule_mapActions hentry x.onAction
  simp only [linked, Parser.map, evalParser, hentry, hentry', nonterminal_mapActions]
  cases k with
  | none => exact .absurd fun _ => not_knows_none
  | some facts =>
      obtain ⟨hneeds, ⟨⟩⟩ := Option.ite_none_right_eq_some.1 hflow
      exact .nonterminal instanceName hvalueType (x.serves rule target htarget)
        (hargs target htarget) fun fact hfact =>
          of_decide_eq_true (List.all_eq_true.1 hneeds fact hfact)

end Follows

/-- With other actions a tree does the same, if every part of it finds what it needs. -/
theorem follows {p : Definition V} (hp : p.Calls (HandsOn x.decls)) : x.Follows p := by
  induction p with
  | empty =>
      intro k hit miss hflow
      cases hflow
      exact .hit 0
  | anyChar | char _ | oneOf _ | set _ | range _ _ =>
      intro k hit miss hflow
      cases hflow
      exact .scanOne _
  | atEnd =>
      intro k hit miss hflow
      cases hflow
      exact .atEnd
  | literal word =>
      intro k hit miss hflow
      cases hflow
      exact .literal _
  | keyword word continuation => exact .keyword continuation
  | keywordList selector words ih => exact (ih hp).keywordList words
  | sequence l r ihl ihr => exact (ihl hp.1).sequence (ihr hp.2)
  | alternative l r ihl ihr => exact (ihl hp.1).alternative (ihr hp.2)
  | optional body ih => exact (ih hp).optional
  | star body ih => exact (ih hp).star
  | plus body ih => exact (ih hp).plus
  | difference l r ihl ihr => exact (ihl hp.1).difference (ihr hp.2)
  | exclusiveOr l r ihl ihr => exact (ihl hp.1).exclusiveOr (ihr hp.2)
  | intersection l r ihl ihr => exact (ihl hp.1).intersection (ihr hp.2)
  | list element separator ihe ihs => exact (ihe hp.1).list (ihs hp.2)
  | grouping body ih => exact ih hp
  | token body ih => exact fun _ _ _ hflow => .inToken (ih hp _ _ _ hflow)
  | expectation body ih => exact (ih hp).expectation
  | action name body ih => exact (ih hp).action name
  | nonterminal rule instanceName args => exact .nonterminal instanceName hp

end Exchange

end Step

end AttrGrammar.Parse

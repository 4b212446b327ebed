import AttrGrammar.Proofs.Slots

/-! What is known of the frame of a rule from one part of its tree to the next. A hit and a miss lead
to different knowledge, since what was done before a miss is not taken back. Calls store the values
that rules declare, actions do with the slots what is claimed of them, and where two ways meet the
facts common to both remain. A tree passes if every action and every call finds what it needs on each
way to it; a rule passes if its tree does and leaves the value that the rule declares. -/

namespace AttrGrammar.Peg

variable {V W ρ α : Type}

/-! ### Actions -/

/-- What an action does with a slot: it relies on the value there, relies on it and takes it away,
takes away whatever is there, or stores a value. -/
inductive Move where
  | need (slot : Slot) (type : String)
  | take (slot : Slot) (type : String)
  | clear (slot : Slot)
  | fill (slot : Slot) (type : String)

/-- A local variable can be set if the rule declares it. -/
def Slot.isOpen (locals : List String) : Slot → Bool
  | .localVar name => name ∈ locals
  | .inherited _ => false
  | _ => true

/-- What is known after some moves in turn, unless one of them lacks what it needs. -/
def Move.after (locals : List String) : List Move → List Fact → Option (List Fact)
  | [], facts => some facts
  | need slot type :: rest, facts => if ⟨slot, type⟩ ∈ facts then after locals rest facts else none
  | take slot type :: rest, facts =>
    if ⟨slot, type⟩ ∈ facts then after locals rest (without slot facts) else none
  | clear slot :: rest, facts => after locals rest (without slot facts)
  | fill slot type :: rest, facts =>
    if slot.isOpen locals then after locals rest (⟨slot, type⟩ :: without slot facts) else none

/-- What types the inherited attributes of a grammar have, and what the actions of each rule do with
the slots. -/
structure Usage where
  attributeType : String → String
  moves : String → List (String × List Move)

/-- The facts known when the tree of a rule begins: what it inherits. -/
def Usage.entry (usage : Usage) (decl : RuleDecl V W) : List Fact :=
  decl.inherited.map fun name => ⟨.inherited name, usage.attributeType name⟩

/-! ### Knowledge -/

/-- What is known on a way through a tree; nothing where there is no such way. -/
abbrev Known := Option (List Fact)

namespace Known

/-- What is known where two ways meet. -/
def meet : Known → Known → Known
  | none, k => k
  | k, none => k
  | some facts, some facts' => some (facts.filter (· ∈ facts'))

/-- Whatever is known on the second way is known on the first. -/
def covers : Known → Known → Bool
  | none, _ => true
  | some _, none => false
  | some facts, some facts' => facts'.all (· ∈ facts)

/-- There is such a way, and what is known on it is true of the frame. -/
def Of (k : Known) (typeOf : V → String) (locals : List String) (f : Frame V) : Prop :=
  ∃ facts ∈ k, f.Fits typeOf locals facts

variable {k k' : Known} {typeOf : V → String} {locals : List String} {f : Frame V}

theorem Of.covered (h : k.Of typeOf locals f) (hcovers : k.covers k') :
    k'.Of typeOf locals f := by
  obtain ⟨facts, rfl, hfits⟩ := h
  cases k' with
  | none => cases hcovers
  | some facts' =>
      refine ⟨facts', rfl, hfits.mono fun fact hfact => ?_⟩
      exact of_decide_eq_true (List.all_eq_true.1 hcovers fact hfact)

theorem Of.meet_left (h : k.Of typeOf locals f) : (k.meet k').Of typeOf locals f := by
  obtain ⟨facts, rfl, hfits⟩ := h
  cases k' with
  | none => exact ⟨facts, rfl, hfits⟩
  | some facts' => exact ⟨_, rfl, hfits.mono fun _ hfact => (List.mem_filter.1 hfact).1⟩

theorem Of.meet_right (h : k'.Of typeOf locals f) : (k.meet k').Of typeOf locals f := by
  obtain ⟨facts, rfl, hfits⟩ := h
  cases k with
  | none => exact ⟨facts, rfl, hfits⟩
  | some facts' =>
      refine ⟨_, rfl, hfits.mono fun fact hfact => ?_⟩
      exact of_decide_eq_true (List.mem_filter.1 hfact).2

end Known

/-! ### Trees and rules -/

/-- The facts after a call that hit. -/
def RuleDecl.stored (target : RuleDecl V W) (instanceName : String) (facts : List Fact) :
    List Fact :=
  match target.valueType with
  | some type => ⟨.returned instanceName, type⟩ :: without (.returned instanceName) facts
  | none => facts

namespace Parser

/-- What is known behind a hit and behind a miss of a tree, provided that everything in it finds
what it needs. A repetition keeps what is known before it and after one round, if each round keeps that. -/
def flow (usage : Usage) (decls : List (RuleDecl V W)) (decl : RuleDecl V W) :
    Definition V → Known → Option (Known × Known)
  | empty, k => some (k, none)
  | anyChar, k | atEnd, k | char _, k | literal _, k | oneOf _, k | set _, k | range _ _, k
  | keyword _ none, k => some (k, k)
  | keyword _ (some rule), k => do
    let target ← decls.find? (·.name == rule)
    if target.inherited.isEmpty then some (k, k) else none
  | keywordList selector _, k => do
    let (hit, miss) ← selector.flow usage decls decl k
    some (hit, miss.meet hit)
  | sequence l r, k => do
    let (hit, miss) ← l.flow usage decls decl k
    let (hit', miss') ← r.flow usage decls decl hit
    some (hit', miss.meet miss')
  | alternative l r, k => do
    let (hit, miss) ← l.flow usage decls decl k
    let (hit', miss') ← r.flow usage decls decl miss
    some (hit.meet hit', miss')
  | optional body, k => do
    let (hit, miss) ← body.flow usage decls decl k
    some (hit.meet miss, none)
  | star body, k => do
    let (hit, miss) ← body.flow usage decls decl k
    if (hit.meet miss).covers k then some (k, none) else none
  | plus body, k => do
    let (hit, miss) ← body.flow usage decls decl k
    if (hit.meet miss).covers k then some (k, k) else none
  | difference l r, k => do
    let (hit, miss) ← l.flow usage decls decl k
    let (hit', miss') ← r.flow usage decls decl hit
    some (hit'.meet miss', miss.meet hit')
  | exclusiveOr l r, k => do
    let (hit, miss) ← l.flow usage decls decl k
    let (both, left) ← r.flow usage decls decl hit
    let (right, neither) ← r.flow usage decls decl miss
    some (left.meet right, both.meet neither)
  | intersection l r, k => do
    let (hit, miss) ← l.flow usage decls decl k
    let (hit', miss') ← r.flow usage decls decl hit
    some (hit', miss.meet (hit'.meet miss'))
  | list element separator, k => do
    let (hit, miss) ← element.flow usage decls decl k
    let (hit', miss') ← separator.flow usage decls decl k
    if ((hit.meet miss).meet (hit'.meet miss')).covers k then some (k, k) else none
  | grouping body, k | token body, k => body.flow usage decls decl k
  | expectation body, k => do
    let (hit, _) ← body.flow usage decls decl k
    some (hit, none)
  | action name body, k => do
    let (hit, miss) ← body.flow usage decls decl k
    let moves ← (usage.moves decl.name).lookup name
    match hit with
    | none => some (none, miss)
    | some facts =>
      let facts' ← Move.after decl.locals moves facts
      some (some facts', miss)
  | nonterminal rule instanceName _, k => do
    let target ← decls.find? (·.name == rule)
    match k with
    | none => some (none, none)
    | some facts =>
      if (usage.entry target).all (· ∈ facts) then
        some (some (target.stored instanceName facts), some facts)
      else none

/-- Every call in the tree passes arguments that are as required. -/
def Calls (ok : ρ → List (Argument V) → Prop) : Parser V ρ α → Prop
  | keywordList body _ | optional body | star body | plus body | grouping body | token body
  | expectation body | action _ body => body.Calls ok
  | sequence l r | alternative l r | difference l r | exclusiveOr l r | intersection l r
  | list l r => l.Calls ok ∧ r.Calls ok
  | nonterminal rule _ args => ok rule args
  | _ => True

theorem Calls.imp {ok ok' : ρ → List (Argument V) → Prop} {p : Parser V ρ α} (h : p.Calls ok)
    (himp : ∀ rule args, ok rule args → ok' rule args) : p.Calls ok' := by
  induction p with
  | keywordList _ _ ih | optional _ ih | star _ ih | plus _ ih | grouping _ ih | token _ ih
  | expectation _ ih | action _ _ ih => exact ih h
  | sequence _ _ ihl ihr | alternative _ _ ihl ihr | difference _ _ ihl ihr
  | exclusiveOr _ _ ihl ihr | intersection _ _ ihl ihr | list _ _ ihl ihr =>
      exact ⟨ihl h.1, ihr h.2⟩
  | nonterminal rule instanceName args => exact himp rule args h
  | _ => trivial

end Parser

/-- A call of a rule hands on the attributes that the rule inherits, each under its own name. -/
def HandsOn (decls : List (RuleDecl V W)) (rule : String) (args : List (Argument V)) : Prop :=
  ∀ target ∈ decls.find? (·.name == rule), args = target.inherited.map forward

/-- Everything in the tree of the rule finds what it needs, and the tree leaves the value that the
rule declares. -/
def RuleDecl.passes (usage : Usage) (decls : List (RuleDecl V W)) (decl : RuleDecl V W) : Bool :=
  match decl.definition.flow usage decls decl (some (usage.entry decl)) with
  | none => false
  | some (hit, _) => hit.covers (some (decl.valueType.toList.map fun type => ⟨.value, type⟩))

end AttrGrammar.Peg

import AttrGrammar.Peg.Link

/-! What linking establishes. Every reference in a linked tree leads to an entry of the rule table
that inherits as many attributes as the reference gives arguments, and a start or skip rule is such
an entry too, the skip rule one that inherits nothing. Names are resolved before the rules of the
grammar join the table, against the places they are going to have there, so the statement holds of
the extended table. It is kept by every grammar that is offered to a domain, whether or not it
links: a grammar that does not link fails before anything is written. -/

namespace AttrGrammar.Peg

variable {V W ρ α : Type}

/-! ### References and actions in a tree -/

/-- Every reference of a tree, taken with the number of arguments it gives, and every action of it
are as required. -/
def Parser.Every (ref : ρ → Nat → Prop) (act : α → Prop) : Parser V ρ α → Prop
  | empty | anyChar | atEnd | char _ | literal _ | oneOf _ | set _ | range _ _ => True
  | keyword _ none => True
  | keyword _ (some rule) => ref rule 0
  | keywordList selector _ => selector.Every ref act
  | sequence l r | alternative l r | difference l r | exclusiveOr l r | intersection l r
  | list l r => l.Every ref act ∧ r.Every ref act
  | optional body | star body | plus body | grouping body | token body | expectation body =>
    body.Every ref act
  | action a body => act a ∧ body.Every ref act
  | nonterminal rule _ args => ref rule args.length

theorem Parser.Every.imp {ref ref' : ρ → Nat → Prop} {act act' : α → Prop} {p : Parser V ρ α}
    (h : p.Every ref act) (href : ∀ rule n, ref rule n → ref' rule n)
    (hact : ∀ a, act a → act' a) : p.Every ref' act' := by
  induction p with
  | keyword word continuation =>
      cases continuation with
      | none => trivial
      | some rule => exact href rule 0 h
  | keywordList selector words ih => exact ih h
  | sequence l r ihl ihr | alternative l r ihl ihr | difference l r ihl ihr
  | exclusiveOr l r ihl ihr | intersection l r ihl ihr | list l r ihl ihr =>
      exact ⟨ihl h.1, ihr h.2⟩
  | optional body ih | star body ih | plus body ih | grouping body ih | token body ih
  | expectation body ih => exact ih h
  | action a body ih => exact ⟨hact a h.1, ih h.2⟩
  | nonterminal rule instanceName args => exact href rule args.length h
  | _ => trivial

/-- Nothing is required. -/
theorem Parser.every_trivial (p : Parser V ρ α) : p.Every (fun _ _ => True) fun _ => True := by
  induction p with
  | keyword word continuation => cases continuation <;> trivial
  | keywordList selector words ih => exact ih
  | sequence l r ihl ihr | alternative l r ihl ihr | difference l r ihl ihr
  | exclusiveOr l r ihl ihr | intersection l r ihl ihr | list l r ihl ihr => exact ⟨ihl, ihr⟩
  | optional body ih | star body ih | plus body ih | grouping body ih | token body ih
  | expectation body ih => exact ih
  | action a body ih => exact ⟨trivial, ih⟩
  | _ => trivial

/-- No action occurs in the tree. -/
def Parser.ActionFree (p : Parser V ρ α) : Prop := p.Every (fun _ _ => True) fun _ => False

/-- How many attributes the rule at a place of the table inherits. -/
def arity? (rules : Array (Rule V W)) (id : RuleId) : Option Nat :=
  rules[id.index]?.map (·.inherited.length)

/-- Every reference of a tree leads to a rule of the table that takes as many arguments as the
reference gives. -/
def Parser.LinkedIn (rules : Array (Rule V W)) (p : LinkedParser V W) : Prop :=
  p.Every (fun rule n => arity? rules rule.id = some n) fun _ => True

/-- Every tree in a rule table is linked in it. -/
def LinkedTable (rules : Array (Rule V W)) : Prop :=
  ∀ (i : Nat) (rule : Rule V W), rules[i]? = some rule → rule.definition.LinkedIn rules

theorem arity?_eq_some {rules : Array (Rule V W)} {id : RuleId} {n : Nat} :
    arity? rules id = some n ↔
      ∃ rule, rules[id.index]? = some rule ∧ rule.inherited.length = n := by
  simp [arity?]

theorem arity?_append {rules : Array (Rule V W)} {id : RuleId} {n : Nat}
    (h : arity? rules id = some n) (new : List (Rule V W)) :
    arity? (rules ++ new) id = some n := by
  obtain ⟨rule, hrule, hn⟩ := arity?_eq_some.1 h
  refine arity?_eq_some.2 ⟨rule, ?_, hn⟩
  rw [← Array.getElem?_toList] at hrule ⊢
  rw [Array.toList_appendList, List.getElem?_append_left (List.getElem?_eq_some_iff.1 hrule).1,
    hrule]

/-! ### Steps of linking -/

theorem bind_eq_ok {ε β γ : Type} {x : Except ε β} {f : β → Except ε γ} {c : γ} :
    x >>= f = .ok c ↔ ∃ b, x = .ok b ∧ f b = .ok c := by
  cases x with
  | ok b => exact ⟨fun h => ⟨b, rfl, h⟩, fun ⟨b', hb, h⟩ => by cases hb; exact h⟩
  | error e => exact ⟨nofun, nofun⟩

theorem pure_eq_ok {ε β : Type} {b c : β} : (pure b : Except ε β) = .ok c ↔ b = c :=
  ⟨Except.ok.inj, congrArg Except.ok⟩

/-- The results of a list of steps that all succeed stand in the places of what they come from. -/
theorem mapM_eq_ok {ε β γ : Type} {f : β → Except ε γ} {l : List β} {l' : List γ}
    (h : l.mapM f = .ok l') :
    l'.length = l.length ∧
      ∀ (i : Nat) (c : γ), l'[i]? = some c → ∃ b, l[i]? = some b ∧ f b = .ok c := by
  induction l generalizing l' with
  | nil =>
      rw [List.mapM_nil, pure_eq_ok] at h
      subst h
      simp
  | cons b l ih =>
      simp only [List.mapM_cons, bind_eq_ok, pure_eq_ok] at h
      obtain ⟨c, hc, rest, hrest, rfl⟩ := h
      obtain ⟨hlength, hat⟩ := ih hrest
      refine ⟨by rw [List.length_cons, List.length_cons, hlength], ?_⟩
      rintro (_ | i) c' hc'
      · cases hc'
        exact ⟨b, rfl, hc⟩
      · exact hat i c' hc'

theorem Scope.ruleRef_eq_ok {scope : Scope V W} {name : String} {n : Nat} {rule : RuleRef}
    (h : scope.ruleRef name n = .ok rule) :
    rule.name = name ∧ scope.resolve name = some ⟨rule.id, n⟩ := by
  unfold Scope.ruleRef at h
  split at h
  · cases h
  · next target htarget =>
    split at h
    · next harity =>
      cases h
      subst harity
      exact ⟨rfl, htarget⟩
    · cases h

theorem Scope.action_eq_ok {scope : Scope V W} {name : String} {a : Action V W}
    (h : scope.action name = .ok a) : a ∈ scope.actions ∧ a.name = name := by
  unfold Scope.action at h
  split at h
  · next a' ha' =>
    cases h
    exact ⟨List.mem_of_find?_eq_some ha', by simpa using List.find?_some ha'⟩
  · cases h

/-- The references of a linked tree are what their names resolve to, with the arguments they give,
and its actions are among those of the rule. -/
theorem Parser.link_every {scope : Scope V W} {p : Definition V} {q : LinkedParser V W}
    (h : p.link scope = .ok q) :
    q.Every (fun rule n => scope.resolve rule.name = some ⟨rule.id, n⟩)
      fun a => a ∈ scope.actions := by
  induction p generalizing q with
  | keyword word continuation =>
      cases continuation with
      | none =>
          cases h
          trivial
      | some name =>
          simp only [Parser.link, bind_eq_ok, pure_eq_ok] at h
          obtain ⟨rule, hrule, rfl⟩ := h
          obtain ⟨rfl, hresolve⟩ := Scope.ruleRef_eq_ok hrule
          exact hresolve
  | keywordList selector words ih =>
      simp only [Parser.link, bind_eq_ok, pure_eq_ok] at h
      obtain ⟨q', hq', rfl⟩ := h
      show q'.Every _ _
      exact ih hq'
  | sequence l r ihl ihr | alternative l r ihl ihr | difference l r ihl ihr
  | exclusiveOr l r ihl ihr | intersection l r ihl ihr | list l r ihl ihr =>
      simp only [Parser.link, bind_eq_ok, pure_eq_ok] at h
      obtain ⟨l', hl', r', hr', rfl⟩ := h
      exact ⟨ihl hl', ihr hr'⟩
  | optional body ih | star body ih | plus body ih | grouping body ih | token body ih
  | expectation body ih =>
      simp only [Parser.link, bind_eq_ok, pure_eq_ok] at h
      obtain ⟨body', hbody', rfl⟩ := h
      show body'.Every _ _
      exact ih hbody'
  | action name body ih =>
      simp only [Parser.link, bind_eq_ok, pure_eq_ok] at h
      obtain ⟨a, ha, body', hbody', rfl⟩ := h
      exact ⟨(Scope.action_eq_ok ha).1, ih hbody'⟩
  | nonterminal name instanceName args =>
      simp only [Parser.link, bind_eq_ok, pure_eq_ok] at h
      obtain ⟨rule, hrule, rfl⟩ := h
      obtain ⟨rfl, hresolve⟩ := Scope.ruleRef_eq_ok hrule
      exact hresolve
  | _ =>
      cases h
      trivial

theorem Domain.linkRule_eq_ok {resolve : String → Option Target} {grammar : String} {id : RuleId}
    {decl : RuleDecl V W} {rule : Rule V W} (h : linkRule resolve grammar id decl = .ok rule) :
    rule.id = id ∧ rule.name = decl.name ∧ rule.inherited = decl.inherited ∧
      rule.actions = decl.actions ∧ rule.definition.Every
        (fun ref n => resolve ref.name = some ⟨ref.id, n⟩) fun a => a ∈ decl.actions := by
  simp only [linkRule, bind_eq_ok, pure_eq_ok] at h
  obtain ⟨definition, hdefinition, rfl⟩ := h
  exact ⟨rfl, rfl, rfl, rfl, Parser.link_every hdefinition⟩

/-! ### A grammar joins a domain -/

namespace Domain

/-- What linking a declaration has found when it succeeds: the references, the links, and what
follows from resolving names by them. -/
structure Links (d : Domain V W) (g : GrammarDecl V W) (grammar : Grammar)
    (rules : List (Rule V W)) : Prop where
  fresh : d.byName.lookup g.qualifiedName = none
  references : d.linkReferences g = .ok grammar.references
  distinct : firstRepeated? [] (g.rules.map (·.name)) = none
  linkedRules : d.linkRules g.qualifiedName grammar.references g.links = .ok grammar.linkedRules
  startRule : linkStart (d.resolve (d.ownRules g) grammar.linkedRules grammar.references) g =
    .ok grammar.startRule
  skipRule : linkSkip (d.resolve (d.ownRules g) grammar.linkedRules grammar.references) g =
    .ok grammar.skipRule
  rules : ((d.ownRules g).zip g.rules).mapM (fun (entry, rule) =>
    linkRule (d.resolve (d.ownRules g) grammar.linkedRules grammar.references) g.qualifiedName
      entry.2.id rule) = .ok rules
  id : grammar.id = .ofNat d.grammars.size
  qualifiedName : grammar.qualifiedName = g.qualifiedName
  ownRules : grammar.rules = (d.ownRules g).map fun entry => (entry.1, entry.2.id)
  links : grammar.links = g.links

theorem link_eq_ok {d : Domain V W} {g : GrammarDecl V W} {grammar : Grammar}
    {rules : List (Rule V W)} (h : d.link g = .ok (grammar, rules)) :
    d.Links g grammar rules := by
  unfold link at h
  simp only at h
  split at h
  · cases h
  · next hfresh =>
    simp only [bind_eq_ok] at h
    obtain ⟨references, hreferences, h⟩ := h
    split at h
    · cases h
    · next hdistinct =>
      simp only [bind_eq_ok, pure_eq_ok] at h
      obtain ⟨linked, hlinked, start, hstart, skip, hskip, rules', hrules, hpair⟩ := h
      obtain ⟨rfl, rfl⟩ := Prod.mk.inj hpair
      exact ⟨Option.not_isSome_iff_eq_none.1 hfresh, hreferences,
        Option.eq_none_iff_forall_ne_some.2 hdistinct, hlinked, hstart, hskip, hrules, rfl, rfl,
        rfl, rfl⟩

/-- The domain after a grammar and its rules have joined it. -/
def extended (d : Domain V W) (g : Grammar) (rules : List (Rule V W)) : Domain V W :=
  { d with
    grammars := d.grammars.push g
    byName := Entries.insert g.qualifiedName g.id d.byName
    rules := d.rules ++ rules }

theorem get_bind_run {ε σ α : Type} (f : σ → EStateM ε σ α) (s : σ) : (get >>= f) s = f s s := rfl

theorem bind_run_of_ok {ε σ α β : Type} {x : EStateM ε σ α} {s t : σ} {a : α} (h : x s = .ok a t)
    (f : α → EStateM ε σ β) : (x >>= f) s = f a t := by
  show EStateM.bind x f s = _
  rw [EStateM.bind, h]

theorem bind_run_of_error {ε σ α β : Type} {x : EStateM ε σ α} {s t : σ} {e : ε}
    (h : x s = .error e t) (f : α → EStateM ε σ β) : (x >>= f) s = .error e t := by
  show EStateM.bind x f s = _
  rw [EStateM.bind, h]

theorem addGrammar_of_ok {d : Domain V W} {g : GrammarDecl V W} {grammar : Grammar}
    {rules : List (Rule V W)} (h : d.link g = .ok (grammar, rules)) :
    (addGrammar g).run d = .ok
      (grammar.id, .linked grammar.qualifiedName rules.length grammar.linkedRules.length)
      (d.extended grammar rules) := by
  have hlink : (MonadExcept.ofExcept (d.link g) :
      EStateM LinkError (Domain V W) (Grammar × List (Rule V W))) d = .ok (grammar, rules) d := by
    rw [h]
    rfl
  show addGrammar g d = _
  rw [addGrammar, get_bind_run, bind_run_of_ok hlink]
  rfl

/-- Linking comes before all that is written, so a grammar that does not link has changed nothing. -/
theorem addGrammar_of_error {d : Domain V W} {g : GrammarDecl V W} {e : LinkError}
    (h : d.link g = .error e) : (addGrammar g).run d = .error e d := by
  have hlink : (MonadExcept.ofExcept (d.link g) :
      EStateM LinkError (Domain V W) (Grammar × List (Rule V W))) d = .error e d := by
    rw [h]
    rfl
  show addGrammar g d = _
  rw [addGrammar, get_bind_run, bind_run_of_error hlink]

theorem add_of_ok {d : Domain V W} {g : GrammarDecl V W} {grammar : Grammar}
    {rules : List (Rule V W)} (h : d.link g = .ok (grammar, rules)) :
    d.add g = .ok (grammar.id,
      .linked grammar.qualifiedName rules.length grammar.linkedRules.length,
      d.extended grammar rules) := by
  rw [add, addGrammar_of_ok h]

theorem add_of_error {d : Domain V W} {g : GrammarDecl V W} {e : LinkError}
    (h : d.link g = .error e) : d.add g = .error e := by
  rw [add, addGrammar_of_error h]

theorem length_ownRules (d : Domain V W) (g : GrammarDecl V W) :
    (d.ownRules g).length = g.rules.length := by
  simp [ownRules]

/-- A rule that joins the table stands behind those already there, in the place of its declaration.
-/
theorem Links.rule_at {d : Domain V W} {g : GrammarDecl V W} {grammar : Grammar}
    {rules : List (Rule V W)} (h : d.Links g grammar rules) :
    rules.length = g.rules.length ∧ ∀ (i : Nat) (rule : Rule V W), rules[i]? = some rule →
      ∃ decl, g.rules[i]? = some decl ∧ linkRule
        (d.resolve (d.ownRules g) grammar.linkedRules grammar.references) g.qualifiedName
        (.ofNat (d.rules.size + i)) decl = .ok rule := by
  obtain ⟨hlength, hat⟩ := mapM_eq_ok h.rules
  rw [List.length_zip, length_ownRules, Nat.min_self] at hlength
  refine ⟨hlength, fun i rule hrule => ?_⟩
  obtain ⟨⟨entry, decl⟩, hzip, hlink⟩ := hat i rule hrule
  obtain ⟨hentry, hdecl⟩ := List.getElem?_zip_eq_some.1 hzip
  change g.rules[i]? = some decl at hdecl
  simp only [Domain.ownRules, List.getElem?_mapIdx, hdecl, Option.map_some,
    Option.some.injEq] at hentry
  subst hentry
  exact ⟨decl, hdecl, hlink⟩

theorem Links.getElem?_own {d : Domain V W} {g : GrammarDecl V W} {grammar : Grammar}
    {rules : List (Rule V W)} (h : d.Links g grammar rules) {i : Nat} {decl : RuleDecl V W}
    (hdecl : g.rules[i]? = some decl) :
    ∃ rule, (d.rules ++ rules)[d.rules.size + i]? = some rule ∧
      rule.inherited = decl.inherited := by
  obtain ⟨hlength, hat⟩ := h.rule_at
  have hi : i < rules.length := by
    rw [hlength]
    exact (List.getElem?_eq_some_iff.1 hdecl).1
  obtain ⟨decl', hdecl', hlink⟩ := hat i rules[i] (List.getElem?_eq_getElem hi)
  obtain rfl : decl = decl' := Option.some.inj (hdecl.symm.trans hdecl')
  refine ⟨rules[i], ?_, (linkRule_eq_ok hlink).2.2.1⟩
  rw [← Array.getElem?_toList, Array.toList_appendList, ← Array.length_toList,
    List.getElem?_append_right (Nat.le_add_right _ _), Nat.add_sub_cancel_left,
    List.getElem?_eq_getElem hi]

/-- A name resolves to a rule of the extended table and the number of attributes it inherits. -/
theorem Links.arity?_of_resolve {d : Domain V W} {g : GrammarDecl V W} {grammar : Grammar}
    {rules : List (Rule V W)} (h : d.Links g grammar rules)
    (hsize : (d.rules ++ rules).size < UInt32.size) {name : String} {id : RuleId} {n : Nat}
    (hresolve : d.resolve (d.ownRules g) grammar.linkedRules grammar.references name =
      some ⟨id, n⟩) :
    arity? (d.rules ++ rules) id = some n := by
  unfold resolve at hresolve
  cases hown : (d.ownRules g).lookup name with
  | some target =>
      rw [hown, Option.some_or] at hresolve
      obtain rfl := Option.some.inj hresolve
      obtain ⟨before, behind, hsplit, -⟩ := List.lookup_eq_some_iff.1 hown
      have hmem : (name, (⟨id, n⟩ : Target)) ∈ d.ownRules g := by
        rw [hsplit]
        simp
      obtain ⟨i, hi, hentry⟩ := List.mem_mapIdx.1 hmem
      obtain ⟨-, htarget⟩ := Prod.mk.inj hentry
      cases htarget
      obtain ⟨rule, hrule, hinherited⟩ := h.getElem?_own (List.getElem?_eq_getElem hi)
      have hlt : d.rules.size + i < UInt32.size :=
        Nat.lt_trans (Array.getElem?_eq_some_iff.1 hrule).1 hsize
      refine arity?_eq_some.2 ⟨rule, ?_, by rw [hinherited]⟩
      rw [RuleId.index_ofNat hlt, hrule]
  | none =>
      rw [hown, Option.none_or] at hresolve
      simp only [Option.bind_eq_bind, Option.bind_eq_some_iff, Option.pure_def, Option.some.injEq,
        Target.mk.injEq] at hresolve
      obtain ⟨id', -, rule, hrule, rfl, hn⟩ := hresolve
      exact arity?_append (arity?_eq_some.2 ⟨rule, hrule, hn⟩) rules

/-- A domain in which every name has been resolved: every reference in its rule table and the start
and skip rules of its grammars lead to rules of the table that inherit what is passed to them, and
every rule knows its place. -/
structure Linked (d : Domain V W) : Prop where
  table : LinkedTable d.rules
  place : ∀ (i : Nat) (rule : Rule V W), d.rules[i]? = some rule → rule.id = .ofNat i
  startRule : ∀ g ∈ d.grammars, ∀ id, g.startRule = some id → ∃ n, arity? d.rules id = some n
  skipRule : ∀ g ∈ d.grammars, ∀ id, g.skipRule = some id → arity? d.rules id = some 0

theorem linked_empty : (empty : Domain V W).Linked :=
  ⟨fun _ _ h => by simp [empty] at h, fun _ _ h => by simp [empty] at h,
    fun _ h => by simp [empty] at h, fun _ h => by simp [empty] at h⟩

theorem linkStart_eq_ok {resolve : String → Option Target} {g : GrammarDecl V W} {id : RuleId}
    (h : linkStart resolve g = .ok (some id)) : ∃ name n, resolve name = some ⟨id, n⟩ := by
  unfold linkStart at h
  split at h
  · cases h
  · next name _ =>
    split at h
    · next target htarget =>
      cases h
      exact ⟨name, target.arity, htarget⟩
    · cases h

theorem linkSkip_eq_ok {resolve : String → Option Target} {g : GrammarDecl V W} {id : RuleId}
    (h : linkSkip resolve g = .ok (some id)) : ∃ name, resolve name = some ⟨id, 0⟩ := by
  unfold linkSkip at h
  split at h
  · cases h
  · next name _ =>
    split at h
    · cases h
    · next target htarget =>
      split at h
      · cases h
      · next harity =>
        cases h
        obtain ⟨id, arity⟩ := target
        obtain rfl : arity = 0 := Nat.eq_zero_of_not_pos harity
        exact ⟨name, htarget⟩

/-- A grammar that links keeps the domain linked. -/
theorem Linked.extended {d : Domain V W} {g : GrammarDecl V W} {grammar : Grammar}
    {rules : List (Rule V W)} (hd : d.Linked) (hlinks : d.Links g grammar rules)
    (hsize : (d.extended grammar rules).rules.size < UInt32.size) :
    (d.extended grammar rules).Linked := by
  have hresolve (name : String) (id : RuleId) (n : Nat) (hname : d.resolve (d.ownRules g)
      grammar.linkedRules grammar.references name = some ⟨id, n⟩) :
      arity? (d.rules ++ rules) id = some n :=
    hlinks.arity?_of_resolve hsize hname
  have hat (i : Nat) (rule : Rule V W) (hrule : (d.rules ++ rules)[i]? = some rule) :
      d.rules[i]? = some rule ∨ ∃ decl, linkRule (d.resolve (d.ownRules g) grammar.linkedRules
        grammar.references) g.qualifiedName (.ofNat i) decl = .ok rule := by
    rw [← Array.getElem?_toList, Array.toList_appendList, List.getElem?_append] at hrule
    split at hrule
    · rw [Array.getElem?_toList] at hrule
      exact .inl hrule
    · next hi =>
      rw [Array.length_toList, Nat.not_lt] at hi
      obtain ⟨decl, -, hlink⟩ := hlinks.rule_at.2 _ rule hrule
      rw [Array.length_toList, Nat.add_sub_cancel' hi] at hlink
      exact .inr ⟨decl, hlink⟩
  refine ⟨fun i rule hrule => ?_, fun i rule hrule => ?_, fun g' hg' id hid => ?_,
    fun g' hg' id hid => ?_⟩
  · rcases hat i rule hrule with hold | ⟨decl, hlink⟩
    · exact (hd.table i rule hold).imp (fun _ _ harity => arity?_append harity rules)
        fun _ _ => trivial
    · exact (linkRule_eq_ok hlink).2.2.2.2.imp (fun ref => hresolve ref.name ref.id)
        fun _ _ => trivial
  · rcases hat i rule hrule with hold | ⟨decl, hlink⟩
    · exact hd.place i rule hold
    · exact (linkRule_eq_ok hlink).1
  · rcases Array.mem_push.1 hg' with hmem | rfl
    · obtain ⟨n, hn⟩ := hd.startRule g' hmem id hid
      exact ⟨n, arity?_append hn rules⟩
    · have hstart := hlinks.startRule
      rw [hid] at hstart
      obtain ⟨name, n, hname⟩ := linkStart_eq_ok hstart
      exact ⟨n, hresolve name id n hname⟩
  · rcases Array.mem_push.1 hg' with hmem | rfl
    · exact arity?_append (hd.skipRule g' hmem id hid) rules
    · have hskip := hlinks.skipRule
      rw [hid] at hskip
      obtain ⟨name, hname⟩ := linkSkip_eq_ok hskip
      exact hresolve name id 0 hname

/-! ### Domains as they are built -/

/-- The domain that a grammar leaves behind when it is offered, whether or not it links. -/
def offer (d : Domain V W) (g : GrammarDecl V W) : Domain V W :=
  match (addGrammar g).run d with
  | .ok _ d' | .error _ d' => d'

/-- The domain that the grammars of a list, offered one after the other, leave behind. -/
def build (config : Config) (decls : List (GrammarDecl V W)) : Domain V W :=
  (decls.foldl offer empty).withConfig config

/-- A grammar offered to a domain joins it, or the domain stays as it was. -/
theorem offer_cases (d : Domain V W) (g : GrammarDecl V W) :
    (∃ grammar rules, d.Links g grammar rules ∧ d.offer g = d.extended grammar rules) ∨
      d.offer g = d := by
  unfold offer
  cases hlink : d.link g with
  | ok result =>
      obtain ⟨grammar, rules⟩ := result
      rw [addGrammar_of_ok hlink]
      exact .inl ⟨grammar, rules, link_eq_ok hlink, rfl⟩
  | error e =>
      rw [addGrammar_of_error hlink]
      exact .inr rfl

/-- Unless there is an error, the domain left behind is the one that is returned. -/
theorem offer_eq_add (d : Domain V W) (g : GrammarDecl V W) :
    d.offer g = match d.add g with
      | .ok (_, _, d') => d'
      | .error _ => d := by
  unfold offer
  cases hlink : d.link g with
  | ok result => rw [addGrammar_of_ok hlink, add_of_ok hlink]
  | error e => rw [addGrammar_of_error hlink, add_of_error hlink]

theorem size_extended {d : Domain V W} {grammar : Grammar} {rules : List (Rule V W)} :
    (d.extended grammar rules).rules.size = d.rules.size + rules.length := by
  rw [extended, ← Array.length_toList, ← Array.length_toList, Array.toList_appendList,
    List.length_append]

theorem size_le_offer (d : Domain V W) (g : GrammarDecl V W) :
    d.rules.size ≤ (d.offer g).rules.size := by
  rcases offer_cases d g with ⟨grammar, rules, -, hnext⟩ | hnext
  · rw [hnext, size_extended]
    exact Nat.le_add_right _ _
  · exact Nat.le_of_eq (by rw [hnext])

theorem size_le_foldl_offer (d : Domain V W) (decls : List (GrammarDecl V W)) :
    d.rules.size ≤ (decls.foldl offer d).rules.size := by
  induction decls generalizing d with
  | nil => exact Nat.le_refl _
  | cons g decls ih => exact Nat.le_trans (size_le_offer d g) (ih (d.offer g))

theorem Linked.offer {d : Domain V W} (hd : d.Linked) (g : GrammarDecl V W)
    (hsize : (d.offer g).rules.size < UInt32.size) : (d.offer g).Linked := by
  rcases offer_cases d g with ⟨grammar, rules, hlinks, hnext⟩ | hnext
  · rw [hnext] at hsize ⊢
    exact hd.extended hlinks hsize
  · rwa [hnext]

theorem Linked.foldl_offer {d : Domain V W} (hd : d.Linked) (decls : List (GrammarDecl V W))
    (hsize : (decls.foldl Domain.offer d).rules.size < UInt32.size) :
    (decls.foldl Domain.offer d).Linked := by
  induction decls generalizing d with
  | nil => exact hd
  | cons g decls ih =>
      have hoffer := Nat.lt_of_le_of_lt (size_le_foldl_offer (d.offer g) decls) hsize
      exact ih (hd.offer g hoffer) hsize

/-- Every domain that can be built is linked. -/
theorem linked_build (config : Config) (decls : List (GrammarDecl V W))
    (hsize : (build config decls).rules.size < UInt32.size) : (build config decls).Linked := by
  have h := linked_empty.foldl_offer decls hsize
  exact ⟨h.table, h.place, h.startRule, h.skipRule⟩

end Domain

end AttrGrammar.Peg

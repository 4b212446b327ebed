import AttrGrammar.Proofs.NameMap
import Mathlib.Data.List.TakeWhile

/-! What a declared grammar demands of the domain that it is to join. The demands stand in a fixed
order, which is the order in which they are looked at: the name, the references, the names of the
rules, the links, the start rule, the skip rule, and then what the trees of the rules ask for, each
node before its parts. None of this looks at how names are resolved: what a name means is said by a
relation, and so is what is wrong where a demand is not met. -/

namespace AttrGrammar.Peg

variable {V W ρ α : Type}

/-! ### What a tree asks for -/

/-- What a single node of a tree asks for: a rule that takes some number of arguments, or an action.
-/
inductive Use (ρ α : Type) where
  | call (rule : ρ) (arguments : Nat)
  | action (action : α)

def Use.Granted (ref : ρ → Nat → Prop) (act : α → Prop) : Use ρ α → Prop
  | call rule n => ref rule n
  | action a => act a

/-- All that a tree asks for, each node before its parts and the parts from left to right. -/
def Parser.uses : Parser V ρ α → List (Use ρ α)
  | empty | anyChar | atEnd | char _ | literal _ | oneOf _ | set _ | range _ _ => []
  | keyword _ none => []
  | keyword _ (some rule) => [.call rule 0]
  | keywordList selector _ => selector.uses
  | sequence l r | alternative l r | difference l r | exclusiveOr l r | intersection l r
  | list l r => l.uses ++ r.uses
  | optional body | star body | plus body | grouping body | token body | expectation body =>
    body.uses
  | action a body => .action a :: body.uses
  | nonterminal rule _ args => [.call rule args.length]

/-- No node is missed: a tree is as required everywhere if all that it asks for is granted. -/
theorem Parser.every_iff_uses {ref : ρ → Nat → Prop} {act : α → Prop} {p : Parser V ρ α} :
    p.Every ref act ↔ ∀ u ∈ p.uses, u.Granted ref act := by
  induction p with
  | keyword word continuation => cases continuation <;> simp [Every, uses, Use.Granted]
  | keywordList selector words ih => exact ih
  | sequence l r ihl ihr | alternative l r ihl ihr | difference l r ihl ihr
  | exclusiveOr l r ihl ihr | intersection l r ihl ihr | list l r ihl ihr =>
      rw [Every, uses, List.forall_mem_append, ihl, ihr]
  | optional body ih | star body ih | plus body ih | grouping body ih | token body ih
  | expectation body ih => exact ih
  | action a body ih => rw [Every, uses, List.forall_mem_cons, ih]; rfl
  | nonterminal rule instanceName args => simp [Every, uses, Use.Granted]
  | _ => simp [Every, uses]

/-! ### Paths -/

/-- The path consists of the name of a grammar and that of a rule, with its last dot between them.
-/
def Splits (path grammar rule : String) : Prop := path = grammar ++ "." ++ rule ∧ '.' ∉ rule.toList

theorem splitPath_eq_none {path : String} : splitPath path = none ↔ '.' ∉ path.toList := by
  unfold splitPath
  dsimp only
  have hdot : path.toList.reverse.dropWhile (· != '.') = [] ↔ '.' ∉ path.toList := by
    rw [List.dropWhile_eq_nil_iff]
    simp only [List.mem_reverse, bne_iff_ne]
    exact ⟨fun h hmem => h _ hmem rfl, fun h c hc heq => h (heq ▸ hc)⟩
  rw [← hdot]
  cases path.toList.reverse.dropWhile (· != '.') <;> simp

theorem splitPath_eq_some {path grammar rule : String} :
    splitPath path = some (grammar, rule) ↔ Splits path grammar rule := by
  constructor
  · intro h
    unfold splitPath at h
    dsimp only at h
    split at h
    · cases h
    · next dot before hdrop =>
      obtain ⟨rfl, rfl⟩ := Prod.mk.inj (Option.some.inj h)
      obtain rfl : dot = '.' := by
        have hhead := List.head_dropWhile_not (· != '.') (l := path.toList.reverse)
        simpa [hdrop] using hhead
      have hwhole := List.takeWhile_append_dropWhile (p := (· != '.')) (l := path.toList.reverse)
      rw [hdrop] at hwhole
      refine ⟨?_, ?_⟩
      · rw [← String.toList_inj]
        have hpath := congrArg List.reverse hwhole
        simpa using hpath.symm
      · intro hmem
        simp only [String.toList_ofList, List.mem_reverse] at hmem
        simpa using List.mem_takeWhile_imp hmem
  · rintro ⟨rfl, hdot⟩
    have hrule : ∀ c ∈ rule.toList.reverse, (c != '.') = true := by
      intro c hc
      rw [bne_iff_ne]
      rintro rfl
      exact hdot (List.mem_reverse.1 hc)
    have hreversed : (grammar ++ "." ++ rule).toList.reverse =
        rule.toList.reverse ++ '.' :: grammar.toList.reverse := by simp
    unfold splitPath
    dsimp only
    rw [hreversed, List.dropWhile_append_of_pos hrule, List.takeWhile_append_of_pos hrule]
    simp

theorem Splits.unique {path grammar rule grammar' rule' : String} (h : Splits path grammar rule)
    (h' : Splits path grammar' rule') : grammar = grammar' ∧ rule = rule' :=
  Prod.mk.inj (Option.some.inj ((splitPath_eq_some.2 h).symm.trans (splitPath_eq_some.2 h')))

theorem Splits.dot_mem {path grammar rule : String} (h : Splits path grammar rule) :
    '.' ∈ path.toList := by
  rw [h.1]
  simp

/-! ### What names mean -/

namespace GrammarDecl

/-- The rule that is declared under a name. -/
def rule? (g : GrammarDecl V W) (name : String) : Option (RuleDecl V W) :=
  g.rules.find? (·.name == name)

/-- The link under a name; the last one counts. -/
def link? (g : GrammarDecl V W) (name : String) : Option RuleLink :=
  g.links.reverse.find? (·.localName == name)

end GrammarDecl

namespace Domain

variable {d : Domain V W} {g : GrammarDecl V W}

/-- A grammar of the domain is among those that the declaration references. -/
def Refers (d : Domain V W) (g : GrammarDecl V W) (target : Grammar) : Prop :=
  ∃ name ∈ g.references, ∃ referenced, d.grammar? name = some referenced ∧
    referenced.id = target.id

/-- The path leads to a rule that a referenced grammar defines or links to. -/
def Leads (d : Domain V W) (g : GrammarDecl V W) (path : String) (id : RuleId) : Prop :=
  ∃ grammar rule target, Splits path grammar rule ∧ d.grammar? grammar = some target ∧
    d.Refers g target ∧ target.rule? rule = some id

/-- A name means a rule that takes `n` arguments: one of the grammar itself, else the one that a
link leads to, else the one that the name leads to as a path. -/
inductive Means (d : Domain V W) (g : GrammarDecl V W) : String → Nat → Prop where
  | own {name : String} {rule : RuleDecl V W} (hown : g.rule? name = some rule) :
      Means d g name rule.inherited.length
  | linked {name : String} {link : RuleLink} {id : RuleId} {rule : Rule V W}
      (hown : g.rule? name = none) (hlink : g.link? name = some link)
      (hleads : d.Leads g link.target id) (hrule : d.rule? id = some rule) :
      Means d g name rule.inherited.length
  | path {name : String} {id : RuleId} {rule : Rule V W} (hown : g.rule? name = none)
      (hlink : g.link? name = none) (hleads : d.Leads g name id)
      (hrule : d.rule? id = some rule) : Means d g name rule.inherited.length

/-- What is found under the first part of a path depends on the path alone. -/
theorem target_unique {path grammar rule grammar' rule' : String} {target target' : Option Grammar}
    (h : Splits path grammar rule) (h' : Splits path grammar' rule')
    (htarget : d.grammar? grammar = target) (htarget' : d.grammar? grammar' = target') :
    target = target' := by
  obtain ⟨rfl, -⟩ := h.unique h'
  exact htarget.symm.trans htarget'

theorem Leads.unique {path : String} {id id' : RuleId} (h : d.Leads g path id)
    (h' : d.Leads g path id') : id = id' := by
  obtain ⟨grammar, rule, target, hsplits, htarget, -, hid⟩ := h
  obtain ⟨grammar', rule', target', hsplits', htarget', -, hid'⟩ := h'
  cases target_unique hsplits hsplits' htarget htarget'
  obtain ⟨-, rfl⟩ := hsplits.unique hsplits'
  exact Option.some.inj (hid.symm.trans hid')

/-- The path leads to a rule that takes `n` arguments. -/
def LeadsTo (d : Domain V W) (g : GrammarDecl V W) (path : String) (n : Nat) : Prop :=
  ∃ id rule, d.Leads g path id ∧ d.rule? id = some rule ∧ rule.inherited.length = n

theorem LeadsTo.unique {path : String} {n n' : Nat} (h : d.LeadsTo g path n)
    (h' : d.LeadsTo g path n') : n = n' := by
  obtain ⟨id, rule, hleads, hrule, rfl⟩ := h
  obtain ⟨id', rule', hleads', hrule', rfl⟩ := h'
  obtain rfl := hleads.unique hleads'
  rw [Option.some.inj (hrule.symm.trans hrule')]

theorem means_own {name : String} {n : Nat} {rule : RuleDecl V W} (hown : g.rule? name = some rule) :
    d.Means g name n ↔ rule.inherited.length = n := by
  constructor
  · intro h
    cases h with
    | own hown' => rw [Option.some.inj (hown.symm.trans hown')]
    | linked hown' | path hown' => exact nomatch hown.symm.trans hown'
  · rintro rfl
    exact .own hown

theorem means_linked {name : String} {n : Nat} {link : RuleLink} (hown : g.rule? name = none)
    (hlink : g.link? name = some link) : d.Means g name n ↔ d.LeadsTo g link.target n := by
  constructor
  · intro h
    cases h with
    | own hown' => exact nomatch hown.symm.trans hown'
    | linked _ hlink' hleads hrule =>
        obtain rfl := Option.some.inj (hlink.symm.trans hlink')
        exact ⟨_, _, hleads, hrule, rfl⟩
    | path _ hlink' => exact nomatch hlink.symm.trans hlink'
  · rintro ⟨id, rule, hleads, hrule, rfl⟩
    exact .linked hown hlink hleads hrule

theorem means_path {name : String} {n : Nat} (hown : g.rule? name = none)
    (hlink : g.link? name = none) : d.Means g name n ↔ d.LeadsTo g name n := by
  constructor
  · intro h
    cases h with
    | own hown' => exact nomatch hown.symm.trans hown'
    | linked _ hlink' => exact nomatch hlink.symm.trans hlink'
    | path _ _ hleads hrule => exact ⟨_, _, hleads, hrule, rfl⟩
  · rintro ⟨id, rule, hleads, hrule, rfl⟩
    exact .path hown hlink hleads hrule

/-- A name means no two rules. -/
theorem Means.unique {name : String} {n n' : Nat} (h : d.Means g name n)
    (h' : d.Means g name n') : n = n' := by
  cases hown : g.rule? name with
  | some rule => exact ((means_own hown).1 h).symm.trans ((means_own hown).1 h')
  | none =>
      cases hlink : g.link? name with
      | some link => exact ((means_linked hown hlink).1 h).unique ((means_linked hown hlink).1 h')
      | none => exact ((means_path hown hlink).1 h).unique ((means_path hown hlink).1 h')

/-- As long as the numbers of grammars suffice, the grammars referenced are those that are named. -/
theorem Indexed.refers_iff (hd : d.Indexed) (hcount : d.grammars.size ≤ UInt32.size)
    {target : Grammar} (hmem : target ∈ d.grammars) :
    d.Refers g target ↔ target.qualifiedName ∈ g.references := by
  have htarget : d.grammar? target.qualifiedName = some target :=
    (hd.grammar?_eq_some hcount).2 ⟨hmem, rfl⟩
  refine ⟨fun ⟨name, hname, referenced, hreferenced, hid⟩ => ?_, fun hname =>
    ⟨_, hname, target, htarget, rfl⟩⟩
  have hat : d.grammarAt? target.id = some referenced := by
    rw [← hid]
    exact hd.grammarAt?_id hreferenced
  obtain rfl := Option.some.inj ((hd.grammarAt?_id htarget).symm.trans hat)
  rwa [((hd.grammar?_eq_some hcount).1 hreferenced).2]

end Domain

/-! ### Demands -/

/-- What a declaration demands, one thing at a time. -/
inductive Demand (V W : Type) where
  /-- Its name is new. -/
  | fresh
  | reference (name : String)
  /-- A rule has another name than those before it. -/
  | distinct (earlier : List String) (name : String)
  | link (link : RuleLink)
  | start (name : String)
  | skip (name : String)
  /-- What a node in the tree of a rule asks for. -/
  | use (rule : RuleDecl V W) (use : Use String String)

/-- The names of the rules, each with those before it. -/
def distinctNames (earlier : List String) : List String → List (Demand V W)
  | [] => []
  | name :: rest => .distinct earlier name :: distinctNames (earlier ++ [name]) rest

/-- The demands of a declaration, in the order in which they are looked at. -/
def GrammarDecl.demands (g : GrammarDecl V W) : List (Demand V W) :=
  .fresh :: (g.references.map .reference ++ (distinctNames [] (g.rules.map (·.name)) ++
    (g.links.map .link ++ (g.start.toList.map .start ++ (g.skip.toList.map .skip ++
      g.rules.flatMap fun rule => rule.definition.uses.map (.use rule))))))

namespace Domain

/-- What is wrong with a demand that is not met. -/
inductive Faulty (d : Domain V W) (g : GrammarDecl V W) : Demand V W → LinkError → Prop where
  | duplicateGrammar {other : Grammar} (hmem : other ∈ d.grammars)
      (hname : other.qualifiedName = g.qualifiedName) :
      Faulty d g .fresh (.duplicateGrammar g.qualifiedName)
  | unknownReference {name : String} (hnone : d.grammar? name = none) :
      Faulty d g (.reference name) (.unknownGrammar g.qualifiedName name)
  | duplicateRule {earlier : List String} {name : String} (hmem : name ∈ earlier) :
      Faulty d g (.distinct earlier name) (.duplicateRule g.qualifiedName name)
  | invalidPath {link : RuleLink} (hdot : '.' ∉ link.target.toList) :
      Faulty d g (.link link) (.invalidRulePath g.qualifiedName link.target)
  | unknownTarget {link : RuleLink} {grammar rule : String}
      (hsplits : Splits link.target grammar rule) (hnone : d.grammar? grammar = none) :
      Faulty d g (.link link) (.unknownGrammar g.qualifiedName grammar)
  | unreferenced {link : RuleLink} {grammar rule : String} {target : Grammar}
      (hsplits : Splits link.target grammar rule) (htarget : d.grammar? grammar = some target)
      (hrefers : ¬ d.Refers g target) :
      Faulty d g (.link link) (.unreferencedGrammar g.qualifiedName link.target)
  | unknownRule {link : RuleLink} {grammar rule : String} {target : Grammar}
      (hsplits : Splits link.target grammar rule) (htarget : d.grammar? grammar = some target)
      (hrefers : d.Refers g target) (hnone : target.rule? rule = none) :
      Faulty d g (.link link) (.ruleNotFound g.qualifiedName link.localName link.target)
  | missingStart {name : String} (hnone : ∀ n, ¬ d.Means g name n) :
      Faulty d g (.start name) (.missingStartRule g.qualifiedName name)
  | missingSkip {name : String} (hnone : ∀ n, ¬ d.Means g name n) :
      Faulty d g (.skip name) (.missingSkipRule g.qualifiedName name)
  | skipWithAttributes {name : String} {n : Nat} (hmeans : d.Means g name n) (hpos : 0 < n) :
      Faulty d g (.skip name) (.skipRuleWithAttributes g.qualifiedName name n)
  | unknownCall {rule : RuleDecl V W} {name : String} {arguments : Nat}
      (hnone : ∀ n, ¬ d.Means g name n) :
      Faulty d g (.use rule (.call name arguments)) (.ruleNotFound g.qualifiedName rule.name name)
  | argumentCount {rule : RuleDecl V W} {name : String} {arguments n : Nat}
      (hmeans : d.Means g name n) (hne : n ≠ arguments) :
      Faulty d g (.use rule (.call name arguments))
        (.argumentCountMismatch g.qualifiedName rule.name name n arguments)
  | unknownAction {rule : RuleDecl V W} {name : String}
      (hnone : ∀ action ∈ rule.actions, action.name ≠ name) :
      Faulty d g (.use rule (.action name)) (.actionNotFound g.qualifiedName rule.name name)

variable {d : Domain V W} {g : GrammarDecl V W}

/-- With one demand only one thing is wrong. -/
theorem Faulty.unique {demand : Demand V W} {e e' : LinkError} (h : d.Faulty g demand e)
    (h' : d.Faulty g demand e') : e = e' := by
  cases h with
  | duplicateGrammar | unknownReference | duplicateRule | missingStart | unknownAction =>
      cases h'
      rfl
  | invalidPath hdot =>
      cases h' with
      | invalidPath => rfl
      | unknownTarget hsplits | unreferenced hsplits | unknownRule hsplits =>
          exact absurd hsplits.dot_mem hdot
  | unknownTarget hsplits hnone =>
      cases h' with
      | invalidPath hdot => exact absurd hsplits.dot_mem hdot
      | unknownTarget hsplits' => rw [(hsplits.unique hsplits').1]
      | unreferenced hsplits' htarget | unknownRule hsplits' htarget =>
          cases target_unique hsplits hsplits' hnone htarget
  | unreferenced hsplits htarget hrefers =>
      cases h' with
      | invalidPath hdot => exact absurd hsplits.dot_mem hdot
      | unknownTarget hsplits' hnone => cases target_unique hsplits hsplits' htarget hnone
      | unreferenced => rfl
      | unknownRule hsplits' htarget' hrefers' =>
          cases target_unique hsplits hsplits' htarget htarget'
          exact absurd hrefers' hrefers
  | unknownRule hsplits htarget hrefers =>
      cases h' with
      | invalidPath hdot => exact absurd hsplits.dot_mem hdot
      | unknownTarget hsplits' hnone => cases target_unique hsplits hsplits' htarget hnone
      | unreferenced hsplits' htarget' hrefers' =>
          cases target_unique hsplits hsplits' htarget htarget'
          exact absurd hrefers hrefers'
      | unknownRule => rfl
  | missingSkip hnone =>
      cases h' with
      | missingSkip => rfl
      | skipWithAttributes hmeans => exact absurd hmeans (hnone _)
  | skipWithAttributes hmeans =>
      cases h' with
      | missingSkip hnone => exact absurd hmeans (hnone _)
      | skipWithAttributes hmeans' => rw [hmeans.unique hmeans']
  | unknownCall hnone =>
      cases h' with
      | unknownCall => rfl
      | argumentCount hmeans => exact absurd hmeans (hnone _)
  | argumentCount hmeans =>
      cases h' with
      | unknownCall hnone => exact absurd hmeans (hnone _)
      | argumentCount hmeans' => rw [hmeans.unique hmeans']

/-! ### Acceptance -/

/-- A grammar that may join the domain. -/
structure Accepts (d : Domain V W) (g : GrammarDecl V W) : Prop where
  fresh : ∀ other ∈ d.grammars, other.qualifiedName ≠ g.qualifiedName
  references : ∀ name ∈ g.references, ∃ other ∈ d.grammars, other.qualifiedName = name
  distinct : (g.rules.map (·.name)).Nodup
  links : ∀ link ∈ g.links, ∃ id, d.Leads g link.target id
  start : ∀ name, g.start = some name → ∃ n, d.Means g name n
  skip : ∀ name, g.skip = some name → d.Means g name 0
  trees : ∀ rule ∈ g.rules, rule.definition.Every (d.Means g)
    fun name => ∃ action ∈ rule.actions, action.name = name

/-- Nothing is wrong with a demand. -/
def Meets (d : Domain V W) (g : GrammarDecl V W) (demand : Demand V W) : Prop :=
  ∀ e, ¬ d.Faulty g demand e

theorem meets_fresh :
    d.Meets g .fresh ↔ ∀ other ∈ d.grammars, other.qualifiedName ≠ g.qualifiedName :=
  ⟨fun h _ hmem hname => h _ (.duplicateGrammar hmem hname),
    fun h _ hfault => by cases hfault with | duplicateGrammar hmem hname => exact h _ hmem hname⟩

theorem meets_reference (hd : d.Indexed) {name : String} :
    d.Meets g (.reference name) ↔ ∃ other ∈ d.grammars, other.qualifiedName = name := by
  have hnone : d.Meets g (.reference name) ↔ d.grammar? name ≠ none :=
    ⟨fun h hnone => h _ (.unknownReference hnone),
      fun h _ hfault => by cases hfault with | unknownReference hnone => exact h hnone⟩
  rw [hnone, ne_eq, hd.grammar?_eq_none]
  simp

theorem meets_link {link : RuleLink} :
    d.Meets g (.link link) ↔ ∃ id, d.Leads g link.target id := by
  constructor
  · intro h
    cases hpath : splitPath link.target with
    | none => exact absurd (.invalidPath (splitPath_eq_none.1 hpath)) (h _)
    | some parts =>
        have hsplits := splitPath_eq_some.1 hpath
        cases htarget : d.grammar? parts.1 with
        | none => exact absurd (.unknownTarget hsplits htarget) (h _)
        | some target =>
            by_cases hrefers : d.Refers g target
            · cases hid : target.rule? parts.2 with
              | none => exact absurd (.unknownRule hsplits htarget hrefers hid) (h _)
              | some id => exact ⟨id, _, _, target, hsplits, htarget, hrefers, hid⟩
            · exact absurd (.unreferenced hsplits htarget hrefers) (h _)
  · rintro ⟨id, grammar, rule, target, hsplits, htarget, hrefers, hid⟩ e hfault
    cases hfault with
    | invalidPath hdot => exact hdot hsplits.dot_mem
    | unknownTarget hsplits' hnone => cases target_unique hsplits hsplits' htarget hnone
    | unreferenced hsplits' htarget' hrefers' =>
        cases target_unique hsplits hsplits' htarget htarget'
        exact hrefers' hrefers
    | unknownRule hsplits' htarget' _ hnone =>
        cases target_unique hsplits hsplits' htarget htarget'
        obtain ⟨-, rfl⟩ := hsplits.unique hsplits'
        exact nomatch hnone.symm.trans hid

theorem meets_start {name : String} : d.Meets g (.start name) ↔ ∃ n, d.Means g name n := by
  refine ⟨fun h => ?_, fun ⟨n, hmeans⟩ e hfault => ?_⟩
  · exact Classical.byContradiction fun hnone =>
      h _ (.missingStart fun n hmeans => hnone ⟨n, hmeans⟩)
  · cases hfault with
    | missingStart hnone => exact hnone n hmeans

theorem meets_skip {name : String} : d.Meets g (.skip name) ↔ d.Means g name 0 := by
  refine ⟨fun h => ?_, fun hmeans e hfault => ?_⟩
  · by_cases hsome : ∃ n, d.Means g name n
    · obtain ⟨n, hmeans⟩ := hsome
      rcases Nat.eq_zero_or_pos n with rfl | hpos
      · exact hmeans
      · exact absurd (.skipWithAttributes hmeans hpos) (h _)
    · exact absurd (.missingSkip fun n hmeans => hsome ⟨n, hmeans⟩) (h _)
  · cases hfault with
    | missingSkip hnone => exact hnone 0 hmeans
    | skipWithAttributes hmeans' hpos => exact absurd (hmeans'.unique hmeans) (Nat.ne_of_gt hpos)

theorem meets_use {rule : RuleDecl V W} {u : Use String String} :
    d.Meets g (.use rule u) ↔ u.Granted (d.Means g)
      fun name => ∃ action ∈ rule.actions, action.name = name := by
  cases u with
  | call name arguments =>
      refine ⟨fun h => ?_, fun hmeans e hfault => ?_⟩
      · by_cases hsome : ∃ n, d.Means g name n
        · obtain ⟨n, hmeans⟩ := hsome
          by_cases hn : n = arguments
          · rwa [hn] at hmeans
          · exact absurd (.argumentCount hmeans hn) (h _)
        · exact absurd (.unknownCall fun n hmeans => hsome ⟨n, hmeans⟩) (h _)
      · cases hfault with
        | unknownCall hnone => exact hnone _ hmeans
        | argumentCount hmeans' hne => exact hne (hmeans'.unique hmeans)
  | action name =>
      refine ⟨fun h => ?_, fun ⟨action, hmem, hname⟩ e hfault => ?_⟩
      · exact Classical.byContradiction fun hnone =>
          h _ (.unknownAction fun action hmem hname => hnone ⟨action, hmem, hname⟩)
      · cases hfault with
        | unknownAction hnone => exact hnone action hmem hname

theorem meets_distinctNames {earlier names : List String} :
    (∀ demand ∈ distinctNames earlier names, d.Meets g demand) ↔
      names.Nodup ∧ ∀ name ∈ names, name ∉ earlier := by
  induction names generalizing earlier with
  | nil => simp [distinctNames]
  | cons name names ih =>
      have hhead : d.Meets g (.distinct earlier name) ↔ name ∉ earlier :=
        ⟨fun h hmem => h _ (.duplicateRule hmem),
          fun h _ hfault => by cases hfault with | duplicateRule hmem => exact h hmem⟩
      rw [distinctNames, List.forall_mem_cons, hhead, ih, List.nodup_cons, List.forall_mem_cons]
      simp only [List.mem_append, List.mem_singleton, not_or]
      constructor
      · rintro ⟨hname, hnodup, hrest⟩
        exact ⟨⟨fun hmem => (hrest _ hmem).2 rfl, hnodup⟩, hname, fun n hn => (hrest n hn).1⟩
      · rintro ⟨⟨hnot, hnodup⟩, hname, hrest⟩
        exact ⟨hname, hnodup, fun n hn => ⟨hrest n hn, fun heq => hnot (heq ▸ hn)⟩⟩

/-- A grammar may join if all that it demands is met. -/
theorem accepts_iff_meets (hd : d.Indexed) : d.Accepts g ↔ ∀ demand ∈ g.demands, d.Meets g demand := by
  have htrees : (∀ demand ∈ g.rules.flatMap fun rule => rule.definition.uses.map (.use rule),
      d.Meets g demand) ↔ ∀ rule ∈ g.rules, rule.definition.Every (d.Means g)
        fun name => ∃ action ∈ rule.actions, action.name = name := by
    simp only [List.forall_mem_flatMap, List.forall_mem_map, meets_use, Parser.every_iff_uses]
  simp only [GrammarDecl.demands, List.forall_mem_cons, List.forall_mem_append,
    List.forall_mem_map, meets_distinctNames, htrees, meets_fresh, meets_reference hd, meets_link,
    meets_start, meets_skip, Option.mem_toList, List.not_mem_nil,
    not_false_eq_true, implies_true, and_true]
  exact ⟨fun h => ⟨h.fresh, h.references, h.distinct, h.links, h.start, h.skip, h.trees⟩,
    fun ⟨hfresh, hreferences, hdistinct, hlinks, hstart, hskip, htrees⟩ =>
      ⟨hfresh, hreferences, hdistinct, hlinks, hstart, hskip, htrees⟩⟩

end Domain

end AttrGrammar.Peg

import AttrGrammar.Proofs.Demands

/-! The first fault of a grammar. Linking looks at one demand after the other, gives up at the first
one that is not met and reports what is wrong with it, so it succeeds exactly where all of them are
met. Each part of linking is shown to look at a list of demands in this sense; what it hands on to
the parts behind it is known there, since they run only if the demands before them have been met. -/

namespace AttrGrammar.Peg

variable {V W δ ε β γ : Type}

/-! ### Programs that look at demands -/

/-- The error says what is wrong with the first demand of a list that is not met. -/
inductive FirstFault (fault : δ → ε → Prop) : List δ → ε → Prop where
  | here {demand : δ} {rest : List δ} {e : ε} (hfault : fault demand e) :
      FirstFault fault (demand :: rest) e
  | later {demand : δ} {rest : List δ} {e : ε} (hmet : ∀ e, ¬ fault demand e)
      (hrest : FirstFault fault rest e) : FirstFault fault (demand :: rest) e

/-- A program that looks at demands in their order: it ends with an error about the first one that
is not met, or with a result, and then all are met. -/
def Checks (fault : δ → ε → Prop) (demands : List δ) (x : Except ε β) (good : β → Prop) : Prop :=
  match x with
  | .ok b => (∀ demand ∈ demands, ∀ e, ¬ fault demand e) ∧ good b
  | .error e => FirstFault fault demands e

variable {fault : δ → ε → Prop} {demands demands' : List δ} {e e' : ε} {x : Except ε β}
  {good : β → Prop}

namespace FirstFault

theorem unique (hfault : ∀ demand e e', fault demand e → fault demand e' → e = e')
    (h : FirstFault fault demands e) (h' : FirstFault fault demands e') : e = e' := by
  induction h with
  | here hhere =>
      cases h' with
      | here hhere' => exact hfault _ _ _ hhere hhere'
      | later hmet => exact absurd hhere (hmet _)
  | later hmet _ ih =>
      cases h' with
      | here hhere => exact absurd hhere (hmet _)
      | later _ hrest => exact ih hrest

theorem not_met (h : FirstFault fault demands e) :
    ¬ ∀ demand ∈ demands, ∀ e, ¬ fault demand e := by
  induction h with
  | here hhere => exact fun hall => hall _ List.mem_cons_self _ hhere
  | later _ _ ih => exact fun hall => ih fun demand hmem => hall demand (List.mem_cons_of_mem _ hmem)

theorem append_left (h : FirstFault fault demands e) :
    FirstFault fault (demands ++ demands') e := by
  induction h with
  | here hhere => exact .here hhere
  | later hmet _ ih => exact .later hmet ih

theorem append_right (hmet : ∀ demand ∈ demands, ∀ e, ¬ fault demand e)
    (h : FirstFault fault demands' e) : FirstFault fault (demands ++ demands') e := by
  induction demands with
  | nil => exact h
  | cons demand rest ih =>
      exact .later (hmet demand List.mem_cons_self)
        (ih fun other hmem => hmet other (List.mem_cons_of_mem _ hmem))

end FirstFault

namespace Checks

theorem ok {b : β} (hb : good b) : Checks fault [] (.ok b) good := ⟨by simp, hb⟩

/-- Demands that have been met already. -/
theorem before (hmet : ∀ demand ∈ demands, ∀ e, ¬ fault demand e)
    (hx : Checks fault demands' x good) : Checks fault (demands ++ demands') x good := by
  cases x with
  | ok b => exact ⟨List.forall_mem_append.2 ⟨hmet, hx.1⟩, hx.2⟩
  | error e => exact hx.append_right hmet

/-- A single demand that is met. -/
theorem met {demand : δ} {b : β} (hmet : ∀ e, ¬ fault demand e) (hb : good b) :
    Checks fault [demand] (.ok b) good := ⟨by simpa using hmet, hb⟩

theorem imp {good' : β → Prop} (h : Checks fault demands x good) (hgood : ∀ b, good b → good' b) :
    Checks fault demands x good' := by
  cases x with
  | ok b => exact ⟨h.1, hgood b h.2⟩
  | error e => exact h

/-- The result is the one that the program has. -/
theorem self (h : Checks fault demands x good) : Checks fault demands x fun b => x = .ok b := by
  cases x with
  | ok b => exact ⟨h.1, rfl⟩
  | error e => exact h

theorem bind {f : β → Except ε γ} {good' : γ → Prop} (hx : Checks fault demands x good)
    (hf : ∀ b, good b → Checks fault demands' (f b) good') :
    Checks fault (demands ++ demands') (x >>= f) good' := by
  cases x with
  | error e => exact hx.append_left
  | ok b =>
      obtain ⟨hmet, hb⟩ := hx
      exact before hmet (hf b hb)

/-- What follows from the result without a further demand. -/
theorem map {f : β → γ} {good' : γ → Prop} (hx : Checks fault demands x good)
    (hf : ∀ b, good b → good' (f b)) : Checks fault demands (return f (← x)) good' := by
  have h := hx.bind (f := fun b => .ok (f b)) fun b hb => Checks.ok (hf b hb)
  rwa [List.append_nil] at h

theorem mapM {f : β → Except ε γ} {demandsOf : β → List δ} {l : List β}
    (h : ∀ b ∈ l, Checks fault (demandsOf b) (f b) fun _ => True) :
    Checks fault (l.flatMap demandsOf) (l.mapM f) fun cs =>
      ∀ c, c ∈ cs ↔ ∃ b ∈ l, f b = .ok c := by
  induction l with
  | nil => exact ok (by simp)
  | cons b l ih =>
      rw [List.mapM_cons, List.flatMap_cons]
      refine (h b List.mem_cons_self).self.bind fun c hc =>
        (ih fun b' hb' => h b' (List.mem_cons_of_mem _ hb')).map fun cs hcs c' => ?_
      have hfirst : f b = .ok c' ↔ c' = c := by
        rw [hc, Except.ok.injEq]
        exact eq_comm
      simp only [List.mem_cons, hcs, exists_eq_or_imp, hfirst]

end Checks

/-! ### References and links -/

namespace Domain

variable {d : Domain V W} {g : GrammarDecl V W} {references : List GrammarId}

/-- The numbers of the grammars that the declaration references. -/
def ReferenceIds (d : Domain V W) (g : GrammarDecl V W) (references : List GrammarId) : Prop :=
  ∀ target : Grammar, target.id ∈ references ↔ d.Refers g target

theorem checks_linkReferences (hd : d.Indexed) :
    Checks (d.Faulty g) (g.references.map .reference) (d.linkReferences g) (d.ReferenceIds g) := by
  rw [List.map_eq_flatMap]
  refine (Checks.mapM fun name _ => ?_).imp fun ids hids target => (hids target.id).trans ?_
  · cases hname : d.byName.lookup name with
    | none => exact .here (.unknownReference (hd.grammar?_eq_none.2 (hd.lookup_eq_none.1 hname)))
    | some id =>
        obtain ⟨referenced, hreferenced, -⟩ := hd.lookup_eq_some.1 hname
        refine .met (fun e hfault => ?_) trivial
        cases hfault with
        | unknownReference hnone => exact nomatch hnone.symm.trans hreferenced
  · refine exists_congr fun name => and_congr_right fun _ => ?_
    rw [← hd.lookup_eq_some]
    cases d.byName.lookup name <;> simp

theorem checks_resolveLink (hd : d.Indexed) (hreferences : d.ReferenceIds g references)
    (link : RuleLink) : Checks (d.Faulty g) [.link link]
      (d.resolveLink g.qualifiedName references link) (d.Leads g link.target) := by
  unfold resolveLink
  cases hpath : splitPath link.target with
  | none => exact .here (.invalidPath (splitPath_eq_none.1 hpath))
  | some parts =>
      obtain ⟨grammar, rule⟩ := parts
      have hsplits := splitPath_eq_some.1 hpath
      dsimp only
      cases hname : d.byName.lookup grammar with
      | none =>
          exact .here (.unknownTarget hsplits (hd.grammar?_eq_none.2 (hd.lookup_eq_none.1 hname)))
      | some id =>
          obtain ⟨target, htarget, rfl⟩ := hd.lookup_eq_some.1 hname
          dsimp only
          rw [hd.grammarAt?_id htarget, Option.bind_some]
          by_cases hmem : target.id ∈ references
          · have hrefers := (hreferences target).1 hmem
            rw [if_pos hmem]
            cases hid : target.rule? rule with
            | none => exact .here (.unknownRule hsplits htarget hrefers hid)
            | some id =>
                have hleads : d.Leads g link.target id :=
                  ⟨grammar, rule, target, hsplits, htarget, hrefers, hid⟩
                exact .met (meets_link.2 ⟨id, hleads⟩) hleads
          · rw [if_neg hmem]
            exact .here (.unreferenced hsplits htarget fun hrefers =>
              hmem ((hreferences target).2 hrefers))

/-- The table has an entry for each local name, with the rule that the last link under it leads to.
-/
def LinkTable (d : Domain V W) (g : GrammarDecl V W) (links : List RuleLink)
    (known : List (String × RuleId)) : Prop :=
  ∀ name, match links.reverse.find? (·.localName == name) with
    | some link => ∃ id, d.Leads g link.target id ∧ known.lookup name = some id
    | none => known.lookup name = none

theorem LinkTable.insert {links : List RuleLink} {known : List (String × RuleId)}
    {link : RuleLink} {id : RuleId} (h : d.LinkTable g links known)
    (hid : d.Leads g link.target id) :
    d.LinkTable g (links ++ [link]) (Entries.insert link.localName id known) := by
  intro name
  rw [List.reverse_append, List.reverse_singleton, List.singleton_append, List.find?_cons,
    Entries.lookup_insert]
  by_cases hname : link.localName = name
  · subst hname
    simpa using hid
  · rw [beq_false_of_ne hname, if_neg (Ne.symm hname)]
    exact h name

theorem checks_linkRules (hd : d.Indexed) (hreferences : d.ReferenceIds g references) :
    Checks (d.Faulty g) (g.links.map .link) (d.linkRules g.qualifiedName references g.links)
      (d.LinkTable g g.links) := by
  have hfold (links done : List RuleLink) (known : List (String × RuleId))
      (hknown : d.LinkTable g done known) :
      Checks (d.Faulty g) (links.map .link)
        (links.foldlM (fun known link => do
          let id ← d.resolveLink g.qualifiedName references link
          return Entries.insert link.localName id known) known)
        (d.LinkTable g (done ++ links)) := by
    induction links generalizing done known with
    | nil =>
        rw [List.append_nil]
        exact .ok hknown
    | cons link links ih =>
        have hstep : Checks (d.Faulty g) [.link link] (do
            let id ← d.resolveLink g.qualifiedName references link
            return Entries.insert link.localName id known) (d.LinkTable g (done ++ [link])) :=
          (checks_resolveLink hd hreferences link).map fun id hid => hknown.insert hid
        rw [List.foldlM_cons, List.map_cons, ← List.singleton_append, List.append_cons]
        exact hstep.bind fun known' hknown' => ih (done ++ [link]) known' hknown'
  exact hfold g.links [] [] fun name => rfl

/-! ### Names -/

/-- A way to resolve names that tells what they mean. -/
def Resolves (d : Domain V W) (g : GrammarDecl V W) (resolve : String → Option Target) : Prop :=
  ∀ name n, (∃ id, resolve name = some ⟨id, n⟩) ↔ d.Means g name n

theorem Resolves.not_means {resolve : String → Option Target} (h : d.Resolves g resolve)
    {name : String} (hname : resolve name = none) (n : Nat) : ¬ d.Means g name n := by
  intro hmeans
  obtain ⟨id, hid⟩ := (h name n).2 hmeans
  exact nomatch hname.symm.trans hid

theorem Resolves.means {resolve : String → Option Target} (h : d.Resolves g resolve)
    {name : String} {target : Target} (hname : resolve name = some target) :
    d.Means g name target.arity :=
  (h name target.arity).1 ⟨target.id, hname⟩

theorem lookup_ownRules (d : Domain V W) (g : GrammarDecl V W) (name : String) :
    ((d.ownRules g).lookup name).map (·.arity) =
      (g.rule? name).map (·.inherited.length) := by
  have hmapIdx (rules : List (RuleDecl V W)) (place : Nat → RuleId) :
      ((rules.mapIdx fun i rule => (rule.name, (⟨place i, rule.inherited.length⟩ : Target))).lookup
        name).map (·.arity) = (rules.find? (·.name == name)).map (·.inherited.length) := by
    induction rules generalizing place with
    | nil => rfl
    | cons rule rules ih =>
        rw [List.mapIdx_cons, Entries.lookup_cons, List.find?_cons]
        by_cases hname : rule.name = name
        · simp [hname]
        · rw [if_neg (Ne.symm hname), beq_false_of_ne hname]
          exact ih fun i => place (i + 1)
  exact hmapIdx g.rules fun i => .ofNat (d.rules.size + i)

theorem followPath_eq_some (hd : d.Indexed) (hreferences : d.ReferenceIds g references)
    {path : String} {id : RuleId} :
    d.followPath references path = some id ↔ d.Leads g path id := by
  simp only [followPath, Option.bind_eq_bind, Option.bind_eq_some_iff]
  constructor
  · rintro ⟨⟨grammar, rule⟩, hpath, number, hnumber, hid⟩
    dsimp only at hnumber hid
    obtain ⟨target, htarget, rfl⟩ := hd.lookup_eq_some.1 hnumber
    rw [hd.grammarAt?_id htarget, Option.bind_some] at hid
    split at hid
    · next hmem =>
      exact ⟨grammar, rule, target, splitPath_eq_some.1 hpath, htarget,
        (hreferences target).1 hmem, hid⟩
    · cases hid
  · rintro ⟨grammar, rule, target, hsplits, htarget, hrefers, hid⟩
    refine ⟨(grammar, rule), splitPath_eq_some.2 hsplits, target.id,
      hd.lookup_eq_some.2 ⟨target, htarget, rfl⟩, ?_⟩
    rw [if_pos ((hreferences target).2 hrefers), hd.grammarAt?_id htarget]
    exact hid

/-- What is found in the rule table under the rule that a path leads to. -/
theorem exists_target_iff {path : String} {n : Nat} {found : Option RuleId}
    (hfound : ∀ id, found = some id ↔ d.Leads g path id) :
    (∃ id, (do
      let id ← found
      let rule ← d.rule? id
      return (⟨id, rule.inherited.length⟩ : Target)) = some ⟨id, n⟩) ↔ d.LeadsTo g path n := by
  simp only [Option.bind_eq_bind, Option.bind_eq_some_iff, Option.pure_def, Option.some.injEq,
    Target.mk.injEq, hfound]
  constructor
  · rintro ⟨-, id, hleads, rule, hrule, -, hlength⟩
    exact ⟨id, rule, hleads, hrule, hlength⟩
  · rintro ⟨id, rule, hleads, hrule, hlength⟩
    exact ⟨id, id, hleads, rule, hrule, rfl, hlength⟩

theorem resolves_resolve (hd : d.Indexed) {linked : List (String × RuleId)}
    (hreferences : d.ReferenceIds g references) (hlinked : d.LinkTable g g.links linked) :
    d.Resolves g (d.resolve (d.ownRules g) linked references) := by
  intro name n
  have hown := lookup_ownRules d g name
  have hlink := hlinked name
  change match g.link? name with
    | some link => ∃ id, d.Leads g link.target id ∧ linked.lookup name = some id
    | none => linked.lookup name = none at hlink
  unfold resolve
  cases hrule : g.rule? name with
  | some rule =>
      rw [hrule, Option.map_some, Option.map_eq_some_iff] at hown
      obtain ⟨target, htarget, harity⟩ := hown
      rw [htarget, Option.some_or, means_own hrule, ← harity]
      constructor
      · rintro ⟨id, hid⟩
        rw [Option.some.inj hid]
      · rintro rfl
        exact ⟨target.id, rfl⟩
  | none =>
      rw [hrule, Option.map_none, Option.map_eq_none_iff] at hown
      rw [hown, Option.none_or]
      cases hname : g.link? name with
      | some link =>
          rw [hname] at hlink
          obtain ⟨id, hleads, hid⟩ := hlink
          rw [means_linked hrule hname, hid, Option.some_or]
          refine exists_target_iff fun id' => ⟨fun h => ?_, fun h => ?_⟩
          · rwa [← Option.some.inj h]
          · rw [hleads.unique h]
      | none =>
          rw [hname] at hlink
          rw [means_path hrule hname, hlink, Option.none_or]
          exact exists_target_iff fun id => followPath_eq_some hd hreferences

/-! ### Rules -/

theorem checks_firstRepeated (earlier seen names : List String)
    (hseen : ∀ name, name ∈ seen ↔ name ∈ earlier) :
    match firstRepeated? seen names with
    | some repeated => FirstFault (d.Faulty g) (distinctNames earlier names)
        (.duplicateRule g.qualifiedName repeated)
    | none => ∀ demand ∈ distinctNames earlier names, d.Meets g demand := by
  induction names generalizing earlier seen with
  | nil => simp [firstRepeated?, distinctNames]
  | cons name names ih =>
      rw [firstRepeated?, distinctNames]
      by_cases hmem : name ∈ seen
      · rw [if_pos hmem]
        exact .here (.duplicateRule ((hseen name).1 hmem))
      · have hmet : d.Meets g (.distinct earlier name) := fun e hfault => by
          cases hfault with
          | duplicateRule hmem' => exact hmem ((hseen name).2 hmem')
        rw [if_neg hmem]
        have hrest := ih (earlier ++ [name]) (name :: seen) fun other => by
          simp [hseen, or_comm]
        cases hrepeated : firstRepeated? (name :: seen) names with
        | none =>
            rw [hrepeated] at hrest
            exact List.forall_mem_cons.2 ⟨hmet, hrest⟩
        | some repeated =>
            rw [hrepeated] at hrest
            exact .later hmet hrest

variable {resolve : String → Option Target}

theorem checks_linkStart (hresolve : d.Resolves g resolve) :
    Checks (d.Faulty g) (g.start.toList.map .start) (linkStart resolve g) fun _ => True := by
  unfold linkStart
  cases g.start with
  | none => exact .ok trivial
  | some name =>
      dsimp only [Option.toList_some, List.map_cons, List.map_nil]
      cases hname : resolve name with
      | none => exact .here (.missingStart (hresolve.not_means hname))
      | some target => exact .met (meets_start.2 ⟨_, hresolve.means hname⟩) trivial

theorem checks_linkSkip (hresolve : d.Resolves g resolve) :
    Checks (d.Faulty g) (g.skip.toList.map .skip) (linkSkip resolve g) fun _ => True := by
  unfold linkSkip
  cases g.skip with
  | none => exact .ok trivial
  | some name =>
      dsimp only [Option.toList_some, List.map_cons, List.map_nil]
      cases hname : resolve name with
      | none => exact .here (.missingSkip (hresolve.not_means hname))
      | some target =>
          have hmeans := hresolve.means hname
          dsimp only
          by_cases hpos : target.arity > 0
          · rw [if_pos hpos]
            exact .here (.skipWithAttributes hmeans hpos)
          · rw [if_neg hpos]
            rw [Nat.eq_zero_of_not_pos hpos] at hmeans
            exact .met (meets_skip.2 hmeans) trivial

variable {rule : RuleDecl V W}

theorem checks_ruleRef (hresolve : d.Resolves g resolve) (name : String) (n : Nat) :
    Checks (d.Faulty g) [.use rule (.call name n)]
      (Scope.ruleRef ⟨g.qualifiedName, rule.name, rule.actions, resolve⟩ name n)
      fun _ => True := by
  unfold Scope.ruleRef
  dsimp only
  cases hname : resolve name with
  | none => exact .here (.unknownCall (hresolve.not_means hname))
  | some target =>
      have hmeans := hresolve.means hname
      dsimp only
      by_cases harity : target.arity = n
      · rw [if_pos harity]
        rw [harity] at hmeans
        exact .met (meets_use.2 hmeans) trivial
      · rw [if_neg harity]
        exact .here (.argumentCount hmeans harity)

theorem checks_action (name : String) :
    Checks (d.Faulty g) [.use rule (.action name)]
      (Scope.action ⟨g.qualifiedName, rule.name, rule.actions, resolve⟩ name) fun _ => True := by
  unfold Scope.action
  dsimp only
  cases hname : rule.actions.find? (·.name == name) with
  | none =>
      refine .here (.unknownAction fun action hmem => ?_)
      simpa using List.find?_eq_none.1 hname action hmem
  | some action =>
      have hfound : action.name = name := by simpa using List.find?_some hname
      exact .met (meets_use.2 ⟨action, List.mem_of_find?_eq_some hname, hfound⟩) trivial

/-- A tree is looked through in the order of what it asks for. -/
theorem checks_tree (hresolve : d.Resolves g resolve) (p : Definition V) :
    Checks (d.Faulty g) (p.uses.map (.use rule))
      (p.link ⟨g.qualifiedName, rule.name, rule.actions, resolve⟩) fun _ => True := by
  induction p with
  | keyword word continuation =>
      cases continuation with
      | none => exact .ok trivial
      | some name => exact (checks_ruleRef hresolve name 0).map fun _ _ => trivial
  | keywordList selector words ih => exact ih.map fun _ _ => trivial
  | sequence l r ihl ihr | alternative l r ihl ihr | difference l r ihl ihr
  | exclusiveOr l r ihl ihr | intersection l r ihl ihr | list l r ihl ihr =>
      rw [Parser.uses, List.map_append]
      exact ihl.bind fun _ _ => ihr.map fun _ _ => trivial
  | optional body ih | star body ih | plus body ih | grouping body ih | token body ih
  | expectation body ih => exact ih.map fun _ _ => trivial
  | action name body ih =>
      rw [Parser.uses, List.map_cons, ← List.singleton_append]
      exact (checks_action name).bind fun _ _ => ih.map fun _ _ => trivial
  | nonterminal name instanceName args =>
      exact (checks_ruleRef hresolve name args.length).map fun _ _ => trivial
  | _ => exact .ok trivial

theorem checks_rules (hresolve : d.Resolves g resolve) :
    Checks (d.Faulty g) (g.rules.flatMap fun rule => rule.definition.uses.map (.use rule))
      (((d.ownRules g).zip g.rules).mapM fun (entry, rule) =>
        linkRule resolve g.qualifiedName entry.2.id rule) fun _ => True := by
  have hsecond : ((d.ownRules g).zip g.rules).map Prod.snd = g.rules :=
    List.map_snd_zip (Nat.le_of_eq (length_ownRules d g).symm)
  have hflat : ((d.ownRules g).zip g.rules).flatMap (fun pair =>
      pair.2.definition.uses.map (Demand.use pair.2)) =
        g.rules.flatMap fun rule => rule.definition.uses.map (.use rule) := by
    calc
      _ = (((d.ownRules g).zip g.rules).map Prod.snd).flatMap fun rule =>
          rule.definition.uses.map (Demand.use rule) := (List.flatMap_map ..).symm
      _ = _ := by rw [hsecond]
  rw [← hflat]
  exact (Checks.mapM fun pair _ => (checks_tree hresolve pair.2.definition).map fun _ _ =>
    trivial).imp fun _ _ => trivial

/-! ### Grammars -/

/-- Linking looks at all demands of a grammar. -/
theorem checks_link (hd : d.Indexed) (g : GrammarDecl V W) :
    Checks (d.Faulty g) g.demands (d.link g) fun _ => True := by
  unfold link GrammarDecl.demands
  dsimp only
  cases hname : d.byName.lookup g.qualifiedName with
  | some id =>
      obtain ⟨other, hmem, hother, -⟩ := hd.lookup_iff_mem.1 hname
      exact .here (.duplicateGrammar hmem hother)
  | none =>
      have hfresh : ∀ demand ∈ [Demand.fresh], d.Meets g demand := by
        simpa only [List.forall_mem_singleton] using meets_fresh.2 (hd.lookup_eq_none.1 hname)
      refine Checks.before hfresh ((checks_linkReferences hd).bind fun references hreferences => ?_)
      have hdistinct := checks_firstRepeated (d := d) (g := g) [] [] (g.rules.map (·.name))
        fun _ => Iff.rfl
      cases hrepeated : firstRepeated? [] (g.rules.map (·.name)) with
      | some repeated =>
          rw [hrepeated] at hdistinct
          exact hdistinct.append_left
      | none =>
          rw [hrepeated] at hdistinct
          refine Checks.before hdistinct ((checks_linkRules hd hreferences).bind
            fun linked hlinked => ?_)
          have hresolve := resolves_resolve hd hreferences hlinked
          exact (checks_linkStart hresolve).bind fun start _ =>
            (checks_linkSkip hresolve).bind fun skip _ =>
              (checks_rules hresolve).map fun _ _ => trivial

/-- Which grammars join a domain that has been built in any way. A grammar is added if and only if
the domain accepts it, that is, if all its demands are met. If not, the error tells what is wrong
with the first demand that is not met, and the domain that is left behind is the one before, so that
whatever is offered to it later meets with the same. The grammars referenced are those whose names
are given, as long as the numbers of grammars suffice. -/
theorem add_iff_accepts (config : Config) (decls : List (GrammarDecl V W)) (g : GrammarDecl V W) :
    let d := build config decls
    ((∃ id notice d', d.add g = .ok (id, notice, d')) ↔ d.Accepts g) ∧
    (d.Accepts g ↔ ∀ demand ∈ g.demands, d.Meets g demand) ∧
    (∀ e, d.add g = .error e ↔ FirstFault (d.Faulty g) g.demands e) ∧
    (∀ e d', (addGrammar g).run d = .error e d' →
      FirstFault (d.Faulty g) g.demands e ∧ d' = d) ∧
    (¬ d.Accepts g → ∀ later : List (GrammarDecl V W),
      later.foldl offer (d.offer g) = later.foldl offer d) ∧
    (d.grammars.size ≤ UInt32.size → ∀ target ∈ d.grammars,
      d.Refers g target ↔ target.qualifiedName ∈ g.references) := by
  intro d
  have hd : d.Indexed := indexed_build config decls
  have hchecks := checks_link hd g
  have hrefers (hcount : d.grammars.size ≤ UInt32.size) (target : Grammar)
      (hmem : target ∈ d.grammars) : d.Refers g target ↔ target.qualifiedName ∈ g.references :=
    hd.refers_iff hcount hmem
  have haccepts := accepts_iff_meets (g := g) hd
  cases hlink : d.link g with
  | ok result =>
      rw [hlink] at hchecks
      have haccepted : d.Accepts g := haccepts.2 hchecks.1
      have hadd := add_of_ok hlink
      refine ⟨⟨fun _ => haccepted, fun _ => ⟨_, _, _, hadd⟩⟩, haccepts, fun e => ?_,
        fun e d' herror => ?_, fun hnot => absurd haccepted hnot, hrefers⟩
      · rw [hadd]
        exact ⟨fun herror => (nomatch herror), fun hfault => absurd hchecks.1 hfault.not_met⟩
      · exact nomatch (addGrammar_of_ok hlink).symm.trans herror
  | error e =>
      rw [hlink] at hchecks
      have hfirst : FirstFault (d.Faulty g) g.demands e := hchecks
      have hnot : ¬ d.Accepts g := fun haccepted => hfirst.not_met (haccepts.1 haccepted)
      have hrun := addGrammar_of_error hlink
      have hadd := add_of_error hlink
      refine ⟨⟨fun ⟨_, _, _, hok⟩ => (nomatch hadd.symm.trans hok),
        fun haccepted => absurd haccepted hnot⟩, haccepts, fun e' => ?_, fun e' d' herror => ?_,
        fun _ later => ?_, hrefers⟩
      · rw [hadd]
        refine ⟨fun herror => ?_, fun hfault => ?_⟩
        · rwa [← Except.error.inj herror]
        · rw [hfirst.unique (fun _ _ _ h h' => h.unique h') hfault]
      · cases hrun.symm.trans herror
        exact ⟨hfirst, rfl⟩
      · rw [offer, hrun]

/-- A grammar with a link to a rule and a call of an unknown one. -/
def missingCall : GrammarDecl Unit Unit :=
  { name := "Second", references := ["First"], links := [⟨"Digit", "First.Digit"⟩]
    rules := [{ name := "Sum", definition := .sequence (.call "Digit") (.call "Sign") }] }

/-- A grammar that the other one may reference. -/
def oneDigit : GrammarDecl Unit Unit :=
  { name := "First", rules := [{ name := "Digit", definition := .char '1' }] }

/-- The link is in order, so the call of the unknown rule is the first fault, and the domain that the
failure leaves behind is the one before. -/
theorem add_iff_accepts_missing :
    let d := build {} [oneDigit]
    ¬ d.Accepts missingCall ∧ d.offer missingCall = d ∧
      (addGrammar missingCall).run d = .error (.ruleNotFound "Second" "Sum" "Sign") d ∧
      FirstFault (d.Faulty missingCall) missingCall.demands
        (.ruleNotFound "Second" "Sum" "Sign") := by
  intro d
  obtain ⟨hjoins, -, hreports, hleaves, hsame, -⟩ := add_iff_accepts {} [oneDigit] missingCall
  have hadd : d.add missingCall = .error (.ruleNotFound "Second" "Sum" "Sign") := by
    rfl
  have hnot : ¬ d.Accepts missingCall := fun haccepts => by
    obtain ⟨_, _, _, hok⟩ := hjoins.2 haccepts
    exact nomatch hok.symm.trans hadd
  obtain ⟨d', hrun⟩ : ∃ d', (addGrammar missingCall).run d =
    .error (.ruleNotFound "Second" "Sum" "Sign") d' := ⟨_, rfl⟩
  obtain ⟨hfirst, rfl⟩ := hleaves _ d' hrun
  exact ⟨hnot, hsame hnot [], hrun, hfirst⟩

end Domain

end AttrGrammar.Peg

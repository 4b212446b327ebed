import AttrGrammar.Proofs.NameMap
import Mathlib.Algebra.GroupWithZero.Nat

/-! The layout of a domain. All rules stand in one table, and a grammar takes places there that are
not filled yet while its names are being resolved; rules of other grammars it reaches through
references, links and paths, and a link may lead to what is itself a link. So it has to be shown that
each grammar has a block of the table to itself, that the blocks follow each other in the order in
which the grammars were added, and that whatever a grammar refers to lies in its own block or in an
earlier one. A grammar that joins the domain keeps this, as it keeps the map of names in step, and
one that does not link changes nothing. -/

namespace AttrGrammar.Peg

variable {V W : Type}

/-- What tells a grammar and the order of its rules: its qualified name and their names. -/
def GrammarDecl.outline (g : GrammarDecl V W) : String × List String :=
  (g.qualifiedName, g.rules.map (·.name))

def Grammar.outline (g : Grammar) : String × List String := (g.qualifiedName, g.rules.map (·.1))

namespace Domain

/-- Where the block of the `i`-th grammar begins: behind the rules of all grammars added before. -/
def blockStart (d : Domain V W) (i : Nat) : Nat :=
  ((d.grammars.toList.take i).map (·.rules.length)).sum

/-- A rule of the table that lies in the block of the `i`-th grammar or in an earlier one. -/
def Reaches (d : Domain V W) (i : Nat) (id : RuleId) : Prop :=
  id.index < d.rules.size ∧ id.index < d.blockStart (i + 1)

/-- What holds of the `i`-th grammar of a domain. -/
structure Placed (d : Domain V W) (i : Nat) (g : Grammar) : Prop where
  /-- Its rules fill its block in their order. -/
  block : ∀ (k : Nat) (name : String) (id : RuleId), g.rules[k]? = some (name, id) →
    ∃ rule, d.rules[d.blockStart i + k]? = some rule ∧ rule.name = name ∧ rule.id = id
  /-- It refers to grammars that were added before it. -/
  references : ∀ r ∈ g.references, r.index < i
  linkedRules : ∀ entry ∈ g.linkedRules, d.Reaches i entry.2
  startRule : ∀ id, g.startRule = some id → d.Reaches i id
  skipRule : ∀ id, g.skipRule = some id → d.Reaches i id ∧ arity? d.rules id = some 0
  /-- Calls and continuations in its trees lead to rules that it reaches and that inherit as many
  attributes as are passed, none from a keyword; actions are those of the rule itself. -/
  trees : ∀ (k : Nat) (rule : Rule V W), k < g.rules.length →
    d.rules[d.blockStart i + k]? = some rule → rule.definition.Every
      (fun ref n => d.Reaches i ref.id ∧ arity? d.rules ref.id = some n) fun a => a ∈ rule.actions

/-- The rule table is the blocks of the grammars one after the other, every rule and every grammar
knows its place, and the map of names is in step with the grammars. -/
structure LaidOut (d : Domain V W) : Prop extends Indexed d where
  ruleId : ∀ (i : Nat) (rule : Rule V W), d.rules[i]? = some rule → rule.id.index = i
  filled : d.blockStart d.grammars.size = d.rules.size
  placed : ∀ (i : Nat) (g : Grammar), d.grammars[i]? = some g → d.Placed i g

/-! ### Blocks -/

theorem blockStart_succ {d : Domain V W} {i : Nat} {g : Grammar} (h : d.grammars[i]? = some g) :
    d.blockStart (i + 1) = d.blockStart i + g.rules.length := by
  rw [← Array.getElem?_toList] at h
  simp only [blockStart, List.take_add_one, h, Option.toList_some, List.map_append, List.map_cons,
    List.map_nil, List.sum_append, List.sum_cons, List.sum_nil, Nat.add_zero]

theorem blockStart_mono (d : Domain V W) {i j : Nat} (h : i ≤ j) :
    d.blockStart i ≤ d.blockStart j := by
  obtain ⟨k, rfl⟩ := Nat.exists_eq_add_of_le h
  rw [blockStart, blockStart, List.take_add, List.map_append, List.sum_append]
  exact Nat.le_add_right _ _

/-- Every block ends within the table. -/
theorem LaidOut.blockStart_le {d : Domain V W} (hd : d.LaidOut) {i : Nat}
    (hi : i ≤ d.grammars.size) : d.blockStart i ≤ d.rules.size := by
  rw [← hd.filled]
  exact d.blockStart_mono hi

variable {d : Domain V W} {grammar : Grammar} {rules : List (Rule V W)}

theorem blockStart_extended {i : Nat} (hi : i ≤ d.grammars.size) :
    (d.extended grammar rules).blockStart i = d.blockStart i := by
  simp only [blockStart, extended, Array.toList_push]
  rw [List.take_append_of_le_length (by simpa using hi)]

theorem rules_extended_left {p : Nat} (hp : p < d.rules.size) :
    (d.extended grammar rules).rules[p]? = d.rules[p]? := by
  simp only [extended]
  rw [← Array.getElem?_toList, Array.toList_appendList,
    List.getElem?_append_left (by simpa using hp), Array.getElem?_toList]

theorem rules_extended_right (k : Nat) :
    (d.extended grammar rules).rules[d.rules.size + k]? = rules[k]? := by
  simp only [extended]
  rw [← Array.getElem?_toList, Array.toList_appendList, ← Array.length_toList,
    List.getElem?_append_right (Nat.le_add_right _ _), Nat.add_sub_cancel_left]

/-! ### Grammars already there -/

theorem Reaches.extended {i : Nat} {id : RuleId} (h : d.Reaches i id)
    (hi : i < d.grammars.size) : (d.extended grammar rules).Reaches i id := by
  refine ⟨?_, ?_⟩
  · rw [size_extended]
    exact Nat.lt_add_right _ h.1
  · rw [blockStart_extended hi]
    exact h.2

/-- A grammar keeps its block when another one joins. -/
theorem Placed.extended {i : Nat} {g : Grammar} (h : d.Placed i g) (hd : d.LaidOut)
    (hi : d.grammars[i]? = some g) : (d.extended grammar rules).Placed i g := by
  have hlt : i < d.grammars.size := (Array.getElem?_eq_some_iff.1 hi).1
  have hend : d.blockStart i + g.rules.length ≤ d.rules.size := by
    rw [← blockStart_succ hi]
    exact hd.blockStart_le hlt
  have hstart : (d.extended grammar rules).blockStart i = d.blockStart i :=
    blockStart_extended (Nat.le_of_lt hlt)
  refine ⟨fun k name id hk => ?_, h.references, fun entry hentry => ?_, fun id hid => ?_,
    fun id hid => ?_, fun k rule hk hrule => ?_⟩
  · obtain ⟨rule, hrule, hname⟩ := h.block k name id hk
    refine ⟨rule, ?_, hname⟩
    rw [hstart, rules_extended_left (Array.getElem?_eq_some_iff.1 hrule).1, hrule]
  · exact (h.linkedRules entry hentry).extended hlt
  · exact (h.startRule id hid).extended hlt
  · exact ⟨(h.skipRule id hid).1.extended hlt, arity?_append (h.skipRule id hid).2 rules⟩
  · rw [hstart, rules_extended_left (Nat.lt_of_lt_of_le (Nat.add_lt_add_left hk _) hend)] at hrule
    exact (h.trees k rule hk hrule).imp
      (fun ref n href => ⟨href.1.extended hlt, arity?_append href.2 rules⟩) fun _ ha => ha

/-! ### The grammar that joins -/

/-- What a grammar knows by a name, its own rule or one that it links to, is in the table. -/
theorem LaidOut.rule?_lt (hd : d.LaidOut) {g : Grammar} (hg : g ∈ d.grammars) {name : String}
    {id : RuleId} (h : g.rule? name = some id) : id.index < d.rules.size := by
  obtain ⟨i, hi⟩ := Array.mem_iff_getElem?.1 hg
  have hplaced := hd.placed i g hi
  rcases Option.or_eq_some_iff.1 h with hown | ⟨-, hlinked⟩
  · obtain ⟨before, behind, hsplit, -⟩ := List.lookup_eq_some_iff.1 hown
    have hentry : g.rules[before.length]? = some (name, id) := by
      rw [hsplit, List.getElem?_append_right (Nat.le_refl _), Nat.sub_self]
      rfl
    obtain ⟨rule, hrule, -, rfl⟩ := hplaced.block _ name id hentry
    rw [hd.ruleId _ rule hrule]
    exact (Array.getElem?_eq_some_iff.1 hrule).1
  · obtain ⟨before, behind, hsplit, -⟩ := List.lookup_eq_some_iff.1 hlinked
    have hmem : (name, id) ∈ g.linkedRules := by
      rw [hsplit]
      simp
    exact (hplaced.linkedRules _ hmem).1

theorem resolveLink_lt (hd : d.LaidOut) {name : String} {references : List GrammarId}
    {link : RuleLink} {id : RuleId} (h : d.resolveLink name references link = .ok id) :
    id.index < d.rules.size := by
  unfold resolveLink at h
  split at h
  · cases h
  · split at h
    · cases h
    · split at h
      · split at h
        · next hrule =>
          cases h
          obtain ⟨target, hat, hid⟩ := Option.bind_eq_some_iff.1 hrule
          exact hd.rule?_lt (Array.mem_of_getElem? hat) hid
        · cases h
      · cases h

theorem foldlM_links_lt (hd : d.LaidOut) {name : String} {references : List GrammarId}
    {links : List RuleLink} {known linked : List (String × RuleId)}
    (hknown : ∀ entry ∈ known, entry.2.index < d.rules.size)
    (h : links.foldlM (fun known link => do
      let id ← d.resolveLink name references link
      return Entries.insert link.localName id known) known = .ok linked) :
    ∀ entry ∈ linked, entry.2.index < d.rules.size := by
  induction links generalizing known with
  | nil =>
      cases h
      exact hknown
  | cons link links ih =>
      simp only [List.foldlM_cons, bind_eq_ok, pure_eq_ok] at h
      obtain ⟨next, ⟨id, hid, rfl⟩, h⟩ := h
      refine ih (fun entry hentry => ?_) h
      rcases Entries.mem_insert hentry with hold | hnew
      · exact hknown entry hold
      · rw [hnew]
        exact resolveLink_lt hd hid

/-- Every rule linked to is in the table of the domain that the grammar joins. -/
theorem linkRules_lt (hd : d.LaidOut) {name : String} {references : List GrammarId}
    {links : List RuleLink} {linked : List (String × RuleId)}
    (h : d.linkRules name references links = .ok linked) :
    ∀ entry ∈ linked, entry.2.index < d.rules.size :=
  foldlM_links_lt hd (fun _ hentry => by cases hentry) h

theorem linkReferences_lt (hd : d.LaidOut) {g : GrammarDecl V W} {references : List GrammarId}
    (h : d.linkReferences g = .ok references) : ∀ r ∈ references, r.index < d.grammars.size := by
  intro r hr
  obtain ⟨i, hi⟩ := List.mem_iff_getElem?.1 hr
  obtain ⟨reference, -, hlink⟩ := (mapM_eq_ok h).2 i r hi
  split at hlink
  · next hreference =>
    cases hlink
    obtain ⟨referenced, hmem, -, rfl⟩ := hd.lookup_iff_mem.1 hreference
    exact hd.id_lt hmem
  · cases hlink

variable {g : GrammarDecl V W}

theorem Links.length_rules (h : d.Links g grammar rules) : grammar.rules.length = rules.length := by
  rw [h.ownRules, List.length_map, length_ownRules, h.rule_at.1]

theorem Links.outline (h : d.Links g grammar rules) : grammar.outline = g.outline := by
  rw [Grammar.outline, GrammarDecl.outline, h.qualifiedName]
  congr 1
  apply List.ext_getElem?
  intro i
  simp only [h.ownRules, Domain.ownRules, List.getElem?_map, List.getElem?_mapIdx, Option.map_map,
    Function.comp_def]

/-- The block of the grammar that joins ends where the table ends. -/
theorem Links.blockStart_succ (h : d.Links g grammar rules) (hd : d.LaidOut) :
    (d.extended grammar rules).blockStart (d.grammars.size + 1) =
      (d.extended grammar rules).rules.size := by
  have hlast : (d.extended grammar rules).grammars[d.grammars.size]? = some grammar := by
    simp [extended]
  rw [Domain.blockStart_succ hlast, blockStart_extended (Nat.le_refl _), hd.filled, size_extended,
    h.length_rules]

/-- The grammar that joins reaches the whole table. -/
theorem Links.reaches (h : d.Links g grammar rules) (hd : d.LaidOut) {id : RuleId} {n : Nat}
    (hid : arity? (d.extended grammar rules).rules id = some n) :
    (d.extended grammar rules).Reaches d.grammars.size id := by
  obtain ⟨rule, hrule, -⟩ := arity?_eq_some.1 hid
  have hlt := (Array.getElem?_eq_some_iff.1 hrule).1
  exact ⟨hlt, by rwa [h.blockStart_succ hd]⟩

theorem Links.placed (h : d.Links g grammar rules) (hd : d.LaidOut)
    (hsize : (d.extended grammar rules).rules.size < UInt32.size) :
    (d.extended grammar rules).Placed d.grammars.size grammar := by
  have hstart : (d.extended grammar rules).blockStart d.grammars.size = d.rules.size := by
    rw [blockStart_extended (Nat.le_refl _), hd.filled]
  have hresolve (name : String) (id : RuleId) (n : Nat) (hname : d.resolve (d.ownRules g)
      grammar.linkedRules grammar.references name = some ⟨id, n⟩) :
      (d.extended grammar rules).Reaches d.grammars.size id ∧
        arity? (d.extended grammar rules).rules id = some n := by
    have harity : arity? (d.extended grammar rules).rules id = some n :=
      h.arity?_of_resolve hsize hname
    exact ⟨h.reaches hd harity, harity⟩
  refine ⟨fun k name id hk => ?_, linkReferences_lt hd h.references, fun entry hentry => ?_,
    fun id hid => ?_, fun id hid => ?_, fun k rule hk hrule => ?_⟩
  · simp only [h.ownRules, Domain.ownRules, List.getElem?_map, List.getElem?_mapIdx,
      Option.map_map, Option.map_eq_some_iff, Function.comp_apply, Prod.mk.injEq] at hk
    obtain ⟨decl, hdecl, rfl, rfl⟩ := hk
    have hlt : k < rules.length := by
      rw [h.rule_at.1]
      exact (List.getElem?_eq_some_iff.1 hdecl).1
    obtain ⟨decl', hdecl', hlink⟩ := h.rule_at.2 k rules[k] (List.getElem?_eq_getElem hlt)
    obtain rfl : decl = decl' := Option.some.inj (hdecl.symm.trans hdecl')
    obtain ⟨hid, hname, -⟩ := linkRule_eq_ok hlink
    exact ⟨rules[k], by rw [hstart, rules_extended_right, List.getElem?_eq_getElem hlt], hname, hid⟩
  · have hlt := linkRules_lt hd h.linkedRules entry hentry
    have hlonger : entry.2.index < (d.extended grammar rules).rules.size := by
      rw [size_extended]
      exact Nat.lt_add_right _ hlt
    exact ⟨hlonger, by rwa [h.blockStart_succ hd]⟩
  · have hlinked := h.startRule
    rw [hid] at hlinked
    obtain ⟨name, n, hname⟩ := linkStart_eq_ok hlinked
    exact (hresolve name id n hname).1
  · have hlinked := h.skipRule
    rw [hid] at hlinked
    obtain ⟨name, hname⟩ := linkSkip_eq_ok hlinked
    exact hresolve name id 0 hname
  · rw [hstart, rules_extended_right] at hrule
    obtain ⟨decl, -, hlink⟩ := h.rule_at.2 k rule hrule
    obtain ⟨-, -, -, hactions, hevery⟩ := linkRule_eq_ok hlink
    exact hevery.imp (fun ref => hresolve ref.name ref.id) fun a ha => by rwa [hactions]

/-- A grammar that links keeps the layout. -/
theorem LaidOut.add (hd : d.LaidOut) (h : d.Links g grammar rules)
    (hsize : (d.extended grammar rules).rules.size < UInt32.size) :
    (d.extended grammar rules).LaidOut := by
  refine ⟨hd.toIndexed.extended h, fun p rule hrule => ?_, ?_, fun i g' hi => ?_⟩
  · rcases Nat.lt_or_ge p d.rules.size with hp | hp
    · rw [rules_extended_left hp] at hrule
      exact hd.ruleId p rule hrule
    · obtain ⟨k, rfl⟩ := Nat.exists_eq_add_of_le hp
      have hlt : d.rules.size + k < UInt32.size :=
        Nat.lt_trans (Array.getElem?_eq_some_iff.1 hrule).1 hsize
      rw [rules_extended_right] at hrule
      obtain ⟨decl, -, hlink⟩ := h.rule_at.2 k rule hrule
      rw [(linkRule_eq_ok hlink).1, RuleId.index_ofNat hlt]
  · have hcount : (d.extended grammar rules).grammars.size = d.grammars.size + 1 := by
      simp [extended]
    rw [hcount, h.blockStart_succ hd]
  · rcases grammars_extended hi with hold | ⟨rfl, rfl⟩
    · exact (hd.placed i g' hold).extended hd hold
    · exact h.placed hd hsize

/-! ### Domains as they are built -/

theorem laidOut_empty : (empty : Domain V W).LaidOut :=
  ⟨indexed_empty, fun _ _ h => by simp [empty] at h, rfl, fun _ _ h => by simp [empty] at h⟩

/-- Grammars offered one after the other keep the layout, and those that join come in their order. -/
theorem LaidOut.foldl_offer (hd : d.LaidOut) (decls : List (GrammarDecl V W))
    (hsize : (decls.foldl offer d).rules.size < UInt32.size) :
    (decls.foldl offer d).LaidOut ∧ ∃ joined : List (GrammarDecl V W), joined.Sublist decls ∧
      (decls.foldl offer d).grammars.toList.map Grammar.outline =
        d.grammars.toList.map Grammar.outline ++ joined.map GrammarDecl.outline := by
  induction decls generalizing d with
  | nil => exact ⟨hd, [], .slnil, (List.append_nil _).symm⟩
  | cons g decls ih =>
      have hoffer := Nat.lt_of_le_of_lt (size_le_foldl_offer (d.offer g) decls) hsize
      rw [List.foldl_cons] at hsize ⊢
      rcases offer_cases d g with ⟨grammar, rules, hlinks, hnext⟩ | hnext
      · rw [hnext] at hoffer hsize ⊢
        obtain ⟨hlast, joined, hjoined, houtline⟩ := ih (hd.add hlinks hoffer) hsize
        refine ⟨hlast, g :: joined, hjoined.cons_cons g, ?_⟩
        rw [houtline, List.map_cons, ← hlinks.outline]
        simp [extended]
      · rw [hnext] at hsize ⊢
        obtain ⟨hlast, joined, hjoined, houtline⟩ := ih hd hsize
        exact ⟨hlast, joined, hjoined.cons g, houtline⟩

/-- In every domain that can be built, whether or not some of the grammars offered failed to link,
the grammars are those that linked, in their order and with their rules in the order of declaration;
the domain is laid out in blocks, with everything that a grammar refers to in its own block or an
earlier one; and the map of names holds the number of each grammar under its name and nothing else,
so that a name leads to the one grammar that has it and each number belongs to one name, as long as
the numbers suffice. -/
theorem build_laidOut (config : Config) (decls : List (GrammarDecl V W))
    (hsize : (build config decls).rules.size < UInt32.size) :
    let d := build config decls
    (∃ joined : List (GrammarDecl V W), joined.Sublist decls ∧
      d.grammars.toList.map Grammar.outline = joined.map GrammarDecl.outline) ∧
    d.LaidOut ∧
    (∀ name id, d.byName.lookup name = some id ↔
      ∃ g ∈ d.grammars, g.qualifiedName = name ∧ g.id = id) ∧
    (d.grammars.size ≤ UInt32.size →
      (∀ name g, d.grammar? name = some g ↔ g ∈ d.grammars ∧ g.qualifiedName = name) ∧
      ∀ id : GrammarId, id.index < d.grammars.size →
        ∃ name, ∀ other, d.byName.lookup other = some id ↔ other = name) := by
  intro d
  obtain ⟨hfold, joined, hjoined, houtline⟩ := laidOut_empty.foldl_offer decls hsize
  have hindexed : d.Indexed := indexed_build config decls
  have hd : d.LaidOut := ⟨hindexed, hfold.ruleId, hfold.filled, fun i g hi =>
    have h := hfold.placed i g hi
    ⟨h.block, h.references, h.linkedRules, h.startRule, h.skipRule, h.trees⟩⟩
  exact ⟨⟨joined, hjoined, houtline⟩, hd, fun _ _ => hindexed.lookup_iff_mem, fun hcount =>
    ⟨fun _ _ => hindexed.grammar?_eq_some hcount, fun _ hid => hindexed.name_of_id hcount hid⟩⟩

/-- A grammar for others to use, with a number and a blank. -/
def libraryGrammar : GrammarDecl Unit Unit where
  name := "lib"
  rules := [
    { name := "number", definition := .plus (.oneOf .digit) },
    { name := "blank", definition := .char ' ' }]

/-- A grammar that does not link, for it calls a rule that does not exist. -/
def brokenGrammar : GrammarDecl Unit Unit where
  name := "broken"
  rules := [{ name := "lost", definition := .call "nowhere" }]

/-- Sums of numbers, one rule of the library being linked and the other one named by its path. -/
def sumGrammar : GrammarDecl Unit Unit where
  name := "sums"
  references := ["lib"]
  links := [⟨"term", "lib.number"⟩]
  rules := [{ name := "sum", definition := .list (.call "term") (.char '+') }]
  start := some "sum"
  skip := some "lib.blank"

/-- The grammar that failed in between has left no gap: the sums have the number and the block next
to those of the library, and only the two that linked are in the map of names. -/
theorem build_laidOut_sums :
    let d := build {} [libraryGrammar, brokenGrammar, sumGrammar]
    d.rules.size = 3 ∧ d.byName = [("lib", .ofNat 0), ("sums", .ofNat 1)] ∧ d.blockStart 1 = 2 ∧
      d.LaidOut ∧ (∃ g ∈ d.grammars, g.qualifiedName = "sums" ∧ g.id = .ofNat 1) ∧
      ∃ name, ∀ other, d.byName.lookup other = some (.ofNat 1) ↔ other = name := by
  intro d
  have hsize : d.rules.size = 3 := by decide +kernel
  have hnames : d.byName = [("lib", .ofNat 0), ("sums", .ofNat 1)] := by decide +kernel
  obtain ⟨-, hd, hlookup, hnumbers⟩ := build_laidOut {} [libraryGrammar, brokenGrammar, sumGrammar]
    (by decide +kernel)
  have hcount : d.grammars.size ≤ UInt32.size := by decide +kernel
  exact ⟨hsize, hnames, by decide +kernel, hd, (hlookup "sums" _).1 (by rw [hnames]; rfl),
    (hnumbers hcount).2 (.ofNat 1) (by decide +kernel)⟩

end Domain

end AttrGrammar.Peg

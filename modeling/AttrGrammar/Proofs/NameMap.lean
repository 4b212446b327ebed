import AttrGrammar.Proofs.Entries
import AttrGrammar.Proofs.Linking

/-! The names of a domain. Grammars are found by a map from names to numbers, which stands beside the
list of grammars and is written to apart from it. It is in step with the list all the same: each
grammar has one entry in it, with the number that tells its place, and no name has two. So a name
leads to the one grammar that has it, and each number belongs to one name as long as there are no
more grammars than numbers; with more of them the numbers start again, and a name may then lead to
an earlier grammar. -/

namespace AttrGrammar.Peg.Domain

variable {V W : Type} {d : Domain V W} {g : GrammarDecl V W} {grammar target : Grammar}
  {rules : List (Rule V W)} {name : String} {id : GrammarId}

/-- The map of names is in step with the list of grammars. -/
structure Indexed (d : Domain V W) : Prop where
  number : ∀ (i : Nat) (g : Grammar), d.grammars[i]? = some g → g.id = .ofNat i
  entries : d.byName = d.grammars.toList.map fun g => (g.qualifiedName, g.id)
  distinct : (d.byName.map Prod.fst).Nodup

theorem grammars_extended {i : Nat} (h : (d.extended grammar rules).grammars[i]? = some target) :
    d.grammars[i]? = some target ∨ i = d.grammars.size ∧ target = grammar := by
  simp only [extended, Array.getElem?_push] at h
  split at h
  · next hi => exact .inr ⟨hi, (Option.some.inj h).symm⟩
  · exact .inl h

theorem indexed_empty : (empty : Domain V W).Indexed :=
  ⟨fun _ _ h => by simp [empty] at h, rfl, .nil⟩

/-- A grammar that links is entered under a new name, so its entry goes to the end of the map as the
grammar goes to the end of the list. -/
theorem Indexed.extended (hd : d.Indexed) (h : d.Links g grammar rules) :
    (d.extended grammar rules).Indexed := by
  have hfresh : d.byName.lookup grammar.qualifiedName = none := by
    rw [h.qualifiedName]
    exact h.fresh
  have hinsert : (d.extended grammar rules).byName =
      d.byName ++ [(grammar.qualifiedName, grammar.id)] := by
    rw [Domain.extended, Entries.insert, hfresh]
    rfl
  refine ⟨fun i target hi => ?_, ?_, Entries.nodup_insert hd.distinct⟩
  · rcases grammars_extended hi with hold | ⟨rfl, rfl⟩
    · exact hd.number i target hold
    · exact h.id
  · rw [hinsert, hd.entries]
    simp [Domain.extended]

theorem Indexed.offer (hd : d.Indexed) (g : GrammarDecl V W) : (d.offer g).Indexed := by
  rcases offer_cases d g with ⟨grammar, rules, hlinks, hnext⟩ | hnext
  · rw [hnext]
    exact hd.extended hlinks
  · rwa [hnext]

theorem Indexed.foldl_offer (hd : d.Indexed) (decls : List (GrammarDecl V W)) :
    (decls.foldl Domain.offer d).Indexed := by
  induction decls generalizing d with
  | nil => exact hd
  | cons g decls ih => exact ih (hd.offer g)

/-- Whatever grammars were offered, and whether or not they linked, the map is in step. -/
theorem indexed_build (config : Config) (decls : List (GrammarDecl V W)) :
    (build config decls).Indexed := by
  have h := indexed_empty.foldl_offer decls
  exact ⟨h.number, h.entries, h.distinct⟩

/-! ### What names lead to -/

namespace Indexed

theorem lookup_iff_mem (hd : d.Indexed) : d.byName.lookup name = some id ↔
    ∃ target ∈ d.grammars, target.qualifiedName = name ∧ target.id = id := by
  rw [Entries.lookup_eq_some_iff_mem hd.distinct, hd.entries]
  simp only [List.mem_map, Array.mem_toList_iff, Prod.mk.injEq]

theorem lookup_eq_none (hd : d.Indexed) :
    d.byName.lookup name = none ↔ ∀ target ∈ d.grammars, target.qualifiedName ≠ name := by
  rw [Entries.lookup_eq_none_iff_notMem, hd.entries]
  simp

/-- The number of a grammar is never larger than its place. -/
theorem id_lt (hd : d.Indexed) (hmem : target ∈ d.grammars) :
    target.id.index < d.grammars.size := by
  obtain ⟨i, hi⟩ := Array.mem_iff_getElem?.1 hmem
  rw [hd.number i target hi]
  exact Nat.lt_of_le_of_lt (Nat.mod_le _ _) (Array.getElem?_eq_some_iff.1 hi).1

theorem id_of_grammarAt? (hd : d.Indexed) (h : d.grammarAt? id = some target) :
    target.id = id := by
  rw [hd.number id.index target h, GrammarId.ofNat_index]

/-- The number under a name always leads to a grammar, which has that number. -/
theorem lookup_eq_some (hd : d.Indexed) : d.byName.lookup name = some id ↔
    ∃ target, d.grammar? name = some target ∧ target.id = id := by
  constructor
  · intro h
    obtain ⟨target, hmem, -, rfl⟩ := hd.lookup_iff_mem.1 h
    have hlt := hd.id_lt hmem
    have hat : d.grammarAt? target.id = some d.grammars[target.id.index] :=
      Array.getElem?_eq_getElem hlt
    exact ⟨_, Option.bind_eq_some_iff.2 ⟨_, h, hat⟩, hd.id_of_grammarAt? hat⟩
  · rintro ⟨target, htarget, rfl⟩
    obtain ⟨id, hid, hat⟩ := Option.bind_eq_some_iff.1 htarget
    rwa [hd.id_of_grammarAt? hat]

theorem grammar?_eq_none (hd : d.Indexed) :
    d.grammar? name = none ↔ ∀ target ∈ d.grammars, target.qualifiedName ≠ name := by
  rw [← hd.lookup_eq_none, Option.eq_none_iff_forall_ne_some, Option.eq_none_iff_forall_ne_some]
  constructor
  · intro h id hid
    obtain ⟨target, htarget, -⟩ := hd.lookup_eq_some.1 hid
    exact h target htarget
  · intro h target htarget
    exact h target.id (hd.lookup_eq_some.2 ⟨target, htarget, rfl⟩)

theorem grammarAt?_id (hd : d.Indexed) (h : d.grammar? name = some target) :
    d.grammarAt? target.id = some target := by
  obtain ⟨id, -, hat⟩ := Option.bind_eq_some_iff.1 h
  rwa [hd.id_of_grammarAt? hat]

/-- As long as the numbers suffice, the number of a grammar leads to it. -/
theorem grammarAt?_of_mem (hd : d.Indexed) (hcount : d.grammars.size ≤ UInt32.size)
    (hmem : target ∈ d.grammars) : d.grammarAt? target.id = some target := by
  obtain ⟨i, hi⟩ := Array.mem_iff_getElem?.1 hmem
  have hlt : i < UInt32.size := Nat.lt_of_lt_of_le (Array.getElem?_eq_some_iff.1 hi).1 hcount
  rw [grammarAt?, hd.number i target hi, GrammarId.index_ofNat hlt, hi]

/-- As long as the numbers suffice, a name leads to the grammar that has it. -/
theorem grammar?_eq_some (hd : d.Indexed) (hcount : d.grammars.size ≤ UInt32.size) :
    d.grammar? name = some target ↔ target ∈ d.grammars ∧ target.qualifiedName = name := by
  rw [grammar?, Option.bind_eq_some_iff]
  constructor
  · rintro ⟨id, hid, hat⟩
    obtain ⟨other, hmem, hname, rfl⟩ := hd.lookup_iff_mem.1 hid
    obtain rfl := Option.some.inj ((hd.grammarAt?_of_mem hcount hmem).symm.trans hat)
    exact ⟨hmem, hname⟩
  · rintro ⟨hmem, hname⟩
    exact ⟨target.id, hd.lookup_iff_mem.2 ⟨target, hmem, hname, rfl⟩,
      hd.grammarAt?_of_mem hcount hmem⟩

/-- As long as the numbers suffice, each of them belongs to one name. -/
theorem name_of_id (hd : d.Indexed) (hcount : d.grammars.size ≤ UInt32.size)
    (hid : id.index < d.grammars.size) :
    ∃ name, ∀ other, d.byName.lookup other = some id ↔ other = name := by
  have hat : d.grammarAt? id = some d.grammars[id.index] := Array.getElem?_eq_getElem hid
  refine ⟨d.grammars[id.index].qualifiedName, fun other => ?_⟩
  rw [hd.lookup_iff_mem]
  constructor
  · rintro ⟨target, hmem, rfl, rfl⟩
    exact congrArg Grammar.qualifiedName
      (Option.some.inj ((hd.grammarAt?_of_mem hcount hmem).symm.trans hat))
  · rintro rfl
    exact ⟨_, Array.getElem_mem hid, rfl, hd.id_of_grammarAt? hat⟩

end Indexed

end AttrGrammar.Peg.Domain

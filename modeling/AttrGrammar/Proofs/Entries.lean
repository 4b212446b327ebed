import AttrGrammar.Peg.Entries
import Mathlib.Data.List.Nodup

/-! Lists of named entries as finite maps. As long as no name comes twice, the entries are what the
names answer, in whatever order they stand; storing an entry keeps the names distinct, and so does
removing one, although the last entry then moves into the gap. -/

namespace AttrGrammar.Peg

namespace Entries

variable {α : Type} {name other : String} {new v : α} {entries front back : List (String × α)}

theorem keys_replace (name : String) (new : α) (entries : List (String × α)) :
    (replace name new entries).map Prod.fst = entries.map Prod.fst := by
  induction entries with
  | nil => rfl
  | cons e rest ih =>
      rw [replace]
      split
      · rfl
      · rw [List.map_cons, ih, List.map_cons]

/-- With distinct names each entry is the one that is found under its name. -/
theorem lookup_eq_some_iff_mem (h : (entries.map Prod.fst).Nodup) :
    entries.lookup name = some v ↔ (name, v) ∈ entries := by
  induction entries with
  | nil => simp
  | cons e rest ih =>
      obtain ⟨key, old⟩ := e
      rw [List.map_cons, List.nodup_cons] at h
      obtain ⟨hnew, hrest⟩ := h
      rw [lookup_cons, List.mem_cons, Prod.mk.injEq]
      by_cases hkey : name = key
      · subst hkey
        have hnot : (name, v) ∉ rest := fun hmem => hnew (List.mem_map.2 ⟨(name, v), hmem, rfl⟩)
        simp [hnot, eq_comm]
      · simp [hkey, ih hrest]

/-- The entry that is found is the first one with the name. -/
theorem split_of_lookup (h : entries.lookup name = some v) :
    ∃ front back, entries = front ++ (name, v) :: back ∧ name ∉ front.map Prod.fst := by
  obtain ⟨front, back, hsplit, hfront⟩ := List.lookup_eq_some_iff.1 h
  refine ⟨front, back, hsplit, fun hmem => ?_⟩
  obtain ⟨e, he, hname⟩ := List.mem_map.1 hmem
  simpa [hname] using hfront e he

theorem lookup_eq_none_iff_notMem :
    entries.lookup name = none ↔ name ∉ entries.map Prod.fst := by
  rw [List.lookup_eq_none_iff]
  constructor
  · intro h hmem
    obtain ⟨e, he, hname⟩ := List.mem_map.1 hmem
    simpa [hname] using h e he
  · intro h e he
    exact bne_iff_ne.2 fun hname => h (hname ▸ List.mem_map_of_mem (f := Prod.fst) he)

/-- The entry removed is the first one with the name; the others stay, in some order. -/
theorem perm_removeSwap (hfront : name ∉ front.map Prod.fst) :
    (removeSwap name (front ++ (name, v) :: back)).Perm (front ++ back) := by
  have hfind : (front ++ (name, v) :: back).findIdx? (fun e => name == e.1) =
      some front.length := by
    rw [List.findIdx?_append, List.findIdx?_eq_none_iff.2, List.findIdx?_cons]
    · simp
    · intro e he
      exact beq_eq_false_iff_ne.2 fun hname =>
        hfront (hname ▸ List.mem_map_of_mem (f := Prod.fst) he)
  rcases List.eq_nil_or_concat back with rfl | ⟨init, last, rfl⟩
  · have hlast : (front ++ [(name, v)]).getLast? = some (name, v) := by simp
    rw [removeSwap, hfind, hlast]
    simp
  · have hshape :
        front ++ (name, v) :: init.concat last = (front ++ (name, v) :: init) ++ [last] := by
      simp
    have hset : ((front ++ (name, v) :: init) ++ [last]).set front.length last =
        (front ++ last :: init) ++ [last] := by simp
    rw [hshape] at hfind ⊢
    rw [removeSwap, hfind, List.getLast?_append_of_ne_nil _ (by simp)]
    dsimp only [List.getLast?_singleton]
    rw [hset, List.dropLast_concat, List.concat_eq_append]
    exact (List.perm_append_singleton last init).symm.append_left front

theorem removeSwap_of_notMem (h : name ∉ entries.map Prod.fst) :
    removeSwap name entries = entries := by
  have hfind : entries.findIdx? (fun e => name == e.1) = none := by
    rw [List.findIdx?_eq_none_iff]
    intro e he
    exact beq_eq_false_iff_ne.2 fun hname => h (hname ▸ List.mem_map_of_mem (f := Prod.fst) he)
  rw [removeSwap, hfind]

theorem nodup_removeSwap (h : (entries.map Prod.fst).Nodup) :
    ((removeSwap name entries).map Prod.fst).Nodup := by
  cases hname : entries.lookup name with
  | none => rwa [removeSwap_of_notMem (lookup_eq_none_iff_notMem.1 hname)]
  | some v =>
      obtain ⟨front, back, rfl, hfront⟩ := split_of_lookup hname
      refine ((perm_removeSwap hfront).map Prod.fst).nodup_iff.2 (h.sublist ?_)
      exact ((List.sublist_cons_self _ _).append_left front).map _

/-- Taking an entry away changes what its own name answers and nothing else. -/
theorem lookup_removeSwap (h : (entries.map Prod.fst).Nodup) :
    (removeSwap name entries).lookup other =
      if other = name then none else entries.lookup other := by
  cases hname : entries.lookup name with
  | none =>
      rw [removeSwap_of_notMem (lookup_eq_none_iff_notMem.1 hname)]
      split
      · next hsame => rw [hsame, hname]
      · rfl
  | some v =>
      obtain ⟨front, back, rfl, hfront⟩ := split_of_lookup hname
      have hperm : (removeSwap name (front ++ (name, v) :: back)).Perm (front ++ back) :=
        perm_removeSwap hfront
      split
      · next hsame =>
        rw [List.map_append, List.map_cons, List.nodup_middle, List.nodup_cons] at h
        rw [lookup_eq_none_iff_notMem, (hperm.map Prod.fst).mem_iff, hsame, List.map_append]
        exact h.1
      · next hother =>
        ext w
        rw [lookup_eq_some_iff_mem (nodup_removeSwap h), lookup_eq_some_iff_mem h, hperm.mem_iff]
        simp [hother]

theorem nodup_insert (h : (entries.map Prod.fst).Nodup) :
    ((insert name new entries).map Prod.fst).Nodup := by
  unfold insert
  split
  · rwa [keys_replace]
  · next hnone =>
    rw [List.map_append, List.map_singleton, ← List.concat_eq_append, List.nodup_concat]
    exact ⟨lookup_eq_none_iff_notMem.1 (Option.not_isSome_iff_eq_none.1 hnone), h⟩

end Entries

end AttrGrammar.Peg

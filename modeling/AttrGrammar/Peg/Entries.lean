/-! Lists of named entries that keep the order in which the names first came. Of several entries
with one name the first counts. -/

namespace AttrGrammar.Peg.Entries

variable {α : Type u}

/-- Puts a new entry in the place of the first one with a name. -/
def replace (name : String) (new : α) : List (String × α) → List (String × α)
  | [] => []
  | (key, old) :: rest =>
    if name == key then (key, new) :: rest else (key, old) :: replace name new rest

/-- Stores an entry: in the place of the one with its name if there is one, else at the end. -/
def insert (name : String) (new : α) (entries : List (String × α)) : List (String × α) :=
  if (entries.lookup name).isSome then replace name new entries else entries ++ [(name, new)]

/-- Removes the first entry with a name; the last entry moves into the gap. -/
def removeSwap (name : String) (entries : List (String × α)) : List (String × α) :=
  match entries.findIdx? (fun e => name == e.1), entries.getLast? with
  | some i, some last => (entries.set i last).dropLast
  | _, _ => entries

theorem lookup_cons (other key : String) (v : α) (rest : List (String × α)) :
    ((key, v) :: rest).lookup other = if other = key then some v else rest.lookup other := by
  by_cases h : other = key
  · simp [h]
  · simp [List.lookup_cons, beq_eq_false_iff_ne.2 h, h]

theorem lookup_replace (name other : String) (new : α) (entries : List (String × α)) :
    (replace name new entries).lookup other =
      if other = name then (entries.lookup name).map fun _ => new else entries.lookup other := by
  induction entries with
  | nil => simp [replace]
  | cons e rest ih =>
      obtain ⟨key, old⟩ := e
      by_cases hk : name = key
      · subst hk
        by_cases ho : other = name <;> simp [replace, lookup_cons, ho]
      · have hne : (name == key) = false := beq_eq_false_iff_ne.2 hk
        by_cases ho : other = name
        · subst ho
          simp [replace, hne, lookup_cons, ih, hk]
        · simp [replace, hne, lookup_cons, ih, ho]

theorem lookup_append_singleton (name other : String) (new : α) (entries : List (String × α)) :
    (entries ++ [(name, new)]).lookup other =
      (entries.lookup other).or (if other = name then some new else none) := by
  induction entries with
  | nil => simp [lookup_cons]
  | cons e rest ih =>
      obtain ⟨key, old⟩ := e
      by_cases ho : other = key <;> simp [lookup_cons, ih, ho]

/-- Storing an entry changes what its own name answers and nothing else. -/
theorem lookup_insert (name other : String) (new : α) (entries : List (String × α)) :
    (insert name new entries).lookup other =
      if other = name then some new else entries.lookup other := by
  unfold insert
  cases h : entries.lookup name with
  | some old => simp [lookup_replace, h]
  | none =>
      by_cases ho : other = name
      · subst ho
        simp [lookup_append_singleton, h]
      · simp [lookup_append_singleton, ho]

theorem mem_replace {name : String} {new : α} {entries : List (String × α)}
    {e : String × α} (h : e ∈ replace name new entries) : e ∈ entries ∨ e.2 = new := by
  induction entries with
  | nil => cases h
  | cons head rest ih =>
      obtain ⟨key, old⟩ := head
      rw [replace] at h
      split at h
      · rcases List.mem_cons.1 h with rfl | hrest
        · exact .inr rfl
        · exact .inl (List.mem_cons_of_mem _ hrest)
      · rcases List.mem_cons.1 h with rfl | hrest
        · exact .inl List.mem_cons_self
        · exact (ih hrest).imp_left (List.mem_cons_of_mem _)

/-- What is stored was there before or is the new entry. -/
theorem mem_insert {name : String} {new : α} {entries : List (String × α)}
    {e : String × α} (h : e ∈ insert name new entries) : e ∈ entries ∨ e.2 = new := by
  unfold insert at h
  split at h
  · exact mem_replace h
  · rcases List.mem_append.1 h with hold | hnew
    · exact .inl hold
    · rw [List.mem_singleton.1 hnew]
      exact .inr rfl

end AttrGrammar.Peg.Entries

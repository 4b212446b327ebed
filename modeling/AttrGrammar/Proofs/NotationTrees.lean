import AttrGrammar.Proofs.Bracketing
import AttrGrammar.Proofs.NotationLines

/-! The tree that a line of notation stands for. A line is read from the left, and what has been read
waits, for each level of separators, for the operand behind it; a separator completes whatever binds
more tightly than it does. Sequences and alternatives come out bracketed to the right, and parentheses
leave no trace. A line that is joined from two with a separator stands for the tree that is joined from
theirs, if they bind tightly enough. -/

namespace AttrGrammar.Peg.Notation

variable {V α : Type}

/-- The tree that a name stands for. -/
def named (name : String) : Parser V String α :=
  if name = "empty" then .empty
  else if name = "anychar" then .anyChar
  else if name = "end" then .atEnd
  else match CharClass.ofName? name with
    | some cls => .oneOf cls
    | none => .nonterminal name name []

def Mark.apply : Mark → Parser V String α → Parser V String α
  | optional => .optional
  | star => .star
  | plus => .plus
  | expectation => .expectation

/-- A tree with a mark behind it, or without one. -/
def marked (mark : Option Mark) (t : Parser V String α) : Parser V String α :=
  match mark with
  | some m => m.apply t
  | none => t

/-- What has been read of a line at each level and waits for the operand behind it. -/
structure Pending (V α : Type) where
  alternative : Parser V String α → Parser V String α := id
  operator : Parser V String α → Parser V String α := id
  sequence : Parser V String α → Parser V String α := id
  list : Parser V String α → Parser V String α := id

namespace Pending

/-- The tree that comes of everything read and a last operand. -/
def finish (k : Pending V α) (t : Parser V String α) : Parser V String α :=
  k.alternative (k.operator (k.sequence (k.list t)))

/-- What waits inside the operand in front of a separator. -/
def inner (k : Pending V α) : Separator → Pending V α
  | .alternative | .difference | .exclusiveOr | .intersection => { k with alternative := id }
  | .sequence | .list => { list := k.list }

/-- What waits behind a separator with a complete operand in front of it. -/
def close (k : Pending V α) (s : Separator) (t : Parser V String α) : Pending V α :=
  match s with
  | .alternative => { alternative := fun u => k.alternative (t.alternativeOnto u) }
  | .difference => { alternative := k.alternative, operator := .difference t }
  | .exclusiveOr => { alternative := k.alternative, operator := .exclusiveOr t }
  | .intersection => { alternative := k.alternative, operator := .intersection t }
  | .sequence => { k with sequence := fun u => k.sequence (t.sequenceOnto u), list := id }
  | .list => { k with list := .list t }

/-- What waits when an operand and a separator have been read. -/
def push (k : Pending V α) (s : Separator) (t : Parser V String α) : Pending V α :=
  k.close s ((k.inner s).finish t)

end Pending

mutual

def Atom.tree : Atom → Parser V String α
  | .char c => .char c
  | .literal text => .literal text
  | .call rule none => named rule
  | .call rule (some name) => .nonterminal rule name []
  | .range first last => .range first last
  | .group line => line.tree {}
  | .token line => .token (line.tree {})

/-- The tree of a line behind what has been read already. -/
def Line.tree : Line → Pending V α → Parser V String α
  | .last atom mark, k => k.finish (marked mark atom.tree)
  | .more atom mark separator rest, k => rest.tree (k.push separator (marked mark atom.tree))

end

/-! ### How tightly lines bind -/

def Separator.level : Separator → Nat
  | alternative => 1
  | difference | exclusiveOr | intersection => 2
  | sequence => 3
  | list => 4

/-- How tightly the operand in front of a separator has to bind. -/
def Separator.least : Separator → Nat
  | alternative => 1
  | difference | exclusiveOr | intersection => 2
  | sequence => 3
  | list => 5

def Line.level : Line → Nat
  | .last _ none => 6
  | .last _ (some _) => 5
  | .more _ _ separator rest => min separator.level rest.level

/-- One line behind another with a separator between them. -/
def Line.join : Line → Separator → Line → Line
  | .last atom mark, s, l => .more atom mark s l
  | .more atom mark separator rest, s, l => .more atom mark separator (rest.join s l)

theorem Separator.level_le (s : Separator) : s.level ≤ 4 := by
  cases s <;> decide

theorem Line.level_join (s : Separator) (l' : Line) :
    ∀ l : Line, (l.join s l').level = min l.level (min s.level l'.level)
  | .last atom mark => by
    have hlevel : 5 ≤ (Line.last atom mark).level := by
      cases mark <;> simp [Line.level]
    have hle := s.level_le
    show min s.level l'.level = _
    omega
  | .more atom mark separator rest => by
    show min separator.level (rest.join s l').level = _
    rw [Line.level_join s l' rest, ← Nat.min_assoc]
    rfl

/-! ### Operands -/

/-- What waits for the whole line is applied to its tree. -/
theorem Line.tree_alternative : ∀ (l : Line) (k : Pending V α),
    l.tree k = k.alternative (l.tree { k with alternative := id })
  | .last _ _, _ => rfl
  | .more atom mark separator rest, k => by
    show rest.tree (k.push separator _) = k.alternative (rest.tree (Pending.push _ separator _))
    cases separator with
    | alternative =>
      rw [Line.tree_alternative rest, Line.tree_alternative rest (Pending.push _ _ _)]
      rfl
    | _ =>
      rw [Line.tree_alternative rest]
      rfl

/-- So is what waits for a sequence, if the line has no looser separators. -/
theorem Line.tree_sequence : ∀ (l : Line) (k : Pending V α), 3 ≤ l.level →
    l.tree k = k.alternative (k.operator (k.sequence (l.tree { list := k.list })))
  | .last _ _, _, _ => rfl
  | .more atom mark separator rest, k, hlevel => by
    obtain ⟨hseparator, hrest⟩ := Nat.le_min.1 hlevel
    show rest.tree (k.push separator _) =
      k.alternative (k.operator (k.sequence (rest.tree (Pending.push _ separator _))))
    cases separator with
    | sequence =>
      rw [Line.tree_sequence rest _ hrest, Line.tree_sequence rest (Pending.push _ _ _) hrest]
      rfl
    | list =>
      rw [Line.tree_sequence rest _ hrest]
      rfl
    | _ => exact absurd hseparator (by decide)

/-- And so is everything, if the line is an atom with a mark or without one. -/
theorem Line.tree_finish {l : Line} (k : Pending V α) (hlevel : 5 ≤ l.level) :
    l.tree k = k.finish (l.tree {}) := by
  cases l with
  | last atom mark => rfl
  | more atom mark separator rest =>
    have hle := separator.level_le
    have hmin : 5 ≤ min separator.level rest.level := hlevel
    omega

/-- A line in front of a separator is complete there, if it binds tightly enough. -/
theorem Line.tree_join (s : Separator) (l' : Line) : ∀ (l : Line) (k : Pending V α),
    s.least ≤ l.level → (l.join s l').tree k = l'.tree (k.close s (l.tree (k.inner s)))
  | .last _ _, _, _ => rfl
  | .more atom mark separator rest, k, hlevel => by
    obtain ⟨hseparator, hrest⟩ := Nat.le_min.1 hlevel
    show (rest.join s l').tree (k.push separator _) =
      l'.tree (k.close s (rest.tree ((k.inner s).push separator _)))
    rw [Line.tree_join s l' rest _ hrest]
    congr 1
    cases s with
    | alternative =>
      cases separator with
      | alternative =>
        -- What waits in front of the first separator is joined to what stands behind it.
        rw [Line.tree_alternative rest (Pending.push _ _ _)]
        simp only [Pending.push, Pending.close, Pending.inner, id_eq,
          Parser.alternativeOnto_assoc]
      | _ => rfl
    | sequence =>
      cases separator with
      | sequence =>
        rw [Line.tree_sequence rest (Pending.push _ _ _) hrest]
        simp only [Pending.push, Pending.close, Pending.inner, id_eq, Parser.sequenceOnto_assoc]
      | list => rfl
      | _ => exact absurd hseparator (by decide)
    | list =>
      have hle := separator.level_le
      exact absurd hseparator (by simp [Separator.least]; omega)
    | _ =>
      cases separator with
      | alternative => exact absurd hseparator (by decide)
      | _ => rfl

end AttrGrammar.Peg.Notation

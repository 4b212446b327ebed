import AttrGrammar.Proofs.NotationTrees

/-! Grammar notation is unambiguous. A tree is shown as a line of notation, in which a part that binds
too loosely for its place stands in parentheses. Since a text belongs to one line, and a line to one
tree, a text shows which tree it is the text of, up to what is never shown: actions, parentheses for
the reader only, and how sequences and alternatives are bracketed. Sets, keywords and arguments are
left out here: a keyword is shown as a literal is, and what stands between brackets is not escaped. -/

namespace AttrGrammar.Peg

namespace Notation

/-- A line in parentheses, if it binds more loosely than its place allows. -/
def Line.guarded (least : Nat) (l : Line) : Line :=
  if l.level < least then .last (.group l) none else l

/-- How tightly the operand behind a separator has to bind. -/
def Separator.leastBehind : Separator → Nat
  | alternative => 1
  | difference | exclusiveOr | intersection | sequence => 3
  | list => 5

/-- Two operands with a separator between them. -/
def Line.pair (s : Separator) (l r : Line) : Line :=
  (l.guarded s.least).join s (r.guarded s.leastBehind)

/-- A line as an atom, in parentheses if it is not one by itself. -/
def Line.atom : Line → Atom
  | .last atom none => atom
  | l => .group l

end Notation

namespace Parser
open Text Notation

variable {V ρ α : Type}

/-- A tree without its actions and its parentheses. -/
def bare : Parser V ρ α → Parser V ρ α
  | keywordList selector words => keywordList selector.bare words
  | sequence l r => sequence l.bare r.bare
  | alternative l r => alternative l.bare r.bare
  | optional body => optional body.bare
  | star body => star body.bare
  | plus body => plus body.bare
  | difference l r => difference l.bare r.bare
  | exclusiveOr l r => exclusiveOr l.bare r.bare
  | intersection l r => intersection l.bare r.bare
  | list element separator => list element.bare separator.bare
  | grouping body => body.bare
  | token body => token body.bare
  | expectation body => expectation body.bare
  | action _ body => body.bare
  | p => p

/-- Words that mean something in the notation. -/
def reservedWords : List String :=
  ["empty", "anychar", "end", "token", "range", "keyword_list"] ++ CharClass.all.map CharClass.name

/-- A word that is free to be the name of a rule or of a call. -/
def IsFreeName (name : String) : Prop := IsWord name.toList ∧ name ∉ reservedWords

/-- The tree has no sets, no keywords and no arguments, and its names are free. -/
def Plain : Parser V String α → Prop
  | set _ | keyword .. | keywordList .. => False
  | sequence l r | alternative l r | difference l r | exclusiveOr l r | intersection l r
  | list l r => l.Plain ∧ r.Plain
  | optional body | star body | plus body | grouping body | token body | expectation body
  | action _ body => body.Plain
  | nonterminal rule instanceName args => IsFreeName rule ∧ IsFreeName instanceName ∧ args = []
  | _ => True

/-- A name that stands alone in a line. -/
def nameLine (name : String) : Line := .last (.call name none) none

/-- The line that shows a plain tree; for other trees it means nothing. -/
def line : Parser V String α → Line
  | empty => nameLine "empty"
  | anyChar => nameLine "anychar"
  | atEnd => nameLine "end"
  | char c => .last (.char c) none
  | literal text => .last (.literal text) none
  | oneOf cls => nameLine cls.name
  | range first last => .last (.range first last) none
  | sequence l r => .pair .sequence l.line r.line
  | alternative l r => .pair .alternative l.line r.line
  | difference l r => .pair .difference l.line r.line
  | exclusiveOr l r => .pair .exclusiveOr l.line r.line
  | intersection l r => .pair .intersection l.line r.line
  | list l r => .pair .list l.line r.line
  | optional body => .last body.line.atom (some .optional)
  | star body => .last body.line.atom (some .star)
  | plus body => .last body.line.atom (some .plus)
  | expectation body => .last body.line.atom (some .expectation)
  | grouping body => .last (.group body.line) none
  | token body => .last (.token body.line) none
  | action _ body => body.line
  | nonterminal rule instanceName _ =>
    if instanceName = rule then nameLine rule else .last (.call rule (some instanceName)) none
  | set _ | keyword .. | keywordList .. => nameLine "empty"

end Parser

namespace Notation

variable {V α : Type} {l l' : Line} {least : Nat}

/-! ### Parentheses -/

theorem Line.guarded_of_le (h : least ≤ l.level) : l.guarded least = l := if_neg (by omega)

theorem Line.le_level_guarded (hleast : least ≤ 6) (l : Line) : least ≤ (l.guarded least).level := by
  unfold Line.guarded
  split
  · exact hleast
  · omega

theorem Line.guarded_six (l : Line) : l.guarded 6 = .last l.atom none := by
  unfold Line.guarded
  cases l with
  | last atom mark => cases mark <;> rfl
  | more atom mark separator rest =>
    have hle := separator.level_le
    have hlevel : (Line.more atom mark separator rest).level < 6 :=
      show min separator.level rest.level < 6 by omega
    rw [if_pos hlevel]
    rfl

theorem Line.Proper.guarded (h : l.Proper) (least : Nat) : (l.guarded least).Proper := by
  unfold Line.guarded
  split
  · exact h
  · exact h

theorem Line.Proper.atom (h : l.Proper) : l.atom.Proper := by
  have hguarded := h.guarded 6
  rwa [Line.guarded_six] at hguarded

theorem Line.tree_guarded (l : Line) (least : Nat) :
    (l.guarded least).tree {} = (l.tree {} : Parser V String α) := by
  unfold Line.guarded
  split
  · rfl
  · rfl

theorem Line.tree_atom (l : Line) : (l.atom.tree : Parser V String α) = l.tree {} := by
  rw [← Line.tree_guarded l 6, Line.guarded_six]
  rfl

theorem Line.tree_mark (l : Line) (m : Mark) :
    (Line.last l.atom (some m)).tree {} = m.apply (l.tree {} : Parser V String α) :=
  congrArg m.apply l.tree_atom

/-! ### Two operands -/

theorem Line.level_pair (s : Separator) (l r : Line) : (Line.pair s l r).level = s.level := by
  have hl : s.least ≤ (l.guarded s.least).level :=
    Line.le_level_guarded (by cases s <;> decide) l
  have hr : s.leastBehind ≤ (r.guarded s.leastBehind).level :=
    Line.le_level_guarded (by cases s <;> decide) r
  have hleast : s.level ≤ s.least ∧ s.level ≤ s.leastBehind := by cases s <;> decide
  rw [Line.pair, Line.level_join]
  omega

theorem Line.Proper.join (s : Separator) (h' : l'.Proper) :
    ∀ l : Line, l.Proper → (l.join s l').Proper
  | .last _ _, h => ⟨h, h'⟩
  | .more _ _ _ rest, h => ⟨h.1, Line.Proper.join s h' rest h.2⟩

theorem Line.onto_join (s : Separator) (l' : Line) (w : List Char) :
    ∀ l : Line, (l.join s l').onto w = l.onto (s.onto (l'.onto w))
  | .last _ _ => rfl
  | .more atom mark separator rest => by
    show atom.onto (markOnto mark (separator.onto ((rest.join s l').onto w))) = _
    rw [Line.onto_join s l' w rest]
    rfl

/-- The tree of two operands with a separator between them. -/
def Separator.combine : Separator → Parser V String α → Parser V String α → Parser V String α
  | alternative => .alternativeOnto
  | difference => .difference
  | exclusiveOr => .exclusiveOr
  | intersection => .intersection
  | sequence => .sequenceOnto
  | list => .list

theorem Line.tree_pair (s : Separator) (l r : Line) :
    (Line.pair s l r).tree {} = s.combine (l.tree {} : Parser V String α) (r.tree {}) := by
  have hl : s.least ≤ (l.guarded s.least).level :=
    Line.le_level_guarded (by cases s <;> decide) l
  have hr : s.leastBehind ≤ (r.guarded s.leastBehind).level :=
    Line.le_level_guarded (by cases s <;> decide) r
  rw [Line.pair, Line.tree_join s _ _ _ hl]
  cases s with
  | alternative => rw [Line.tree_alternative, ← Line.tree_guarded l 1, ← Line.tree_guarded r 1]; rfl
  | list => rw [Line.tree_finish _ hr, ← Line.tree_guarded l 5, ← Line.tree_guarded r 5]; rfl
  | sequence => rw [Line.tree_sequence _ _ hr, ← Line.tree_guarded l 3, ← Line.tree_guarded r 3]; rfl
  | _ => rw [Line.tree_sequence _ _ hr, ← Line.tree_guarded l 2, ← Line.tree_guarded r 3]; rfl

end Notation

namespace Parser
open Text Notation

variable {V α : Type} {p q : Parser V String α}

theorem level_line (hp : p.Plain) : p.line.level = p.level := by
  induction p with
  | set | keyword | keywordList => exact hp.elim
  | sequence | alternative | difference | exclusiveOr | intersection | list =>
    exact Line.level_pair _ _ _
  | action a body ih => exact ih hp
  | nonterminal rule name args =>
    unfold line
    split <;> rfl
  | _ => rfl

theorem IsFreeName.ne {name : String} (h : IsFreeName name) (word : String)
    (hword : word ∈ reservedWords) : name ≠ word := by
  rintro rfl
  exact h.2 hword

theorem IsFreeName.ne_range {name : String} (h : IsFreeName name) : name.toList ≠ rangeWord := by
  have hword : "range".toList = rangeWord := by decide
  rw [← hword]
  exact mt String.toList_inj.1 (h.ne "range" (by decide))

theorem IsFreeName.ne_token {name : String} (h : IsFreeName name) : name.toList ≠ tokenWord := by
  have hword : "token".toList = tokenWord := by decide
  rw [← hword]
  exact mt String.toList_inj.1 (h.ne "token" (by decide))

theorem proper_nameLine {name : String} (hword : IsWord name.toList)
    (hrange : name.toList ≠ rangeWord) (htoken : name.toList ≠ tokenWord) :
    (nameLine name).Proper :=
  ⟨hword, hrange, htoken, nofun⟩

theorem proper_line (hp : p.Plain) : p.line.Proper := by
  induction p with
  | set | keyword | keywordList => exact hp.elim
  | empty | anyChar | atEnd => exact proper_nameLine (by decide) (by decide) (by decide)
  | oneOf cls =>
    cases cls <;> exact proper_nameLine (by decide) (by decide) (by decide)
  | char | literal | range => trivial
  | sequence l r ihl ihr | alternative l r ihl ihr | difference l r ihl ihr
  | exclusiveOr l r ihl ihr | intersection l r ihl ihr | list l r ihl ihr =>
    exact .join _ ((ihr hp.2).guarded _) _ ((ihl hp.1).guarded _)
  | optional body ih | star body ih | plus body ih | expectation body ih =>
    exact (ih hp).atom
  | grouping body ih | token body ih | action a body ih => exact ih hp
  | nonterminal rule name args =>
    obtain ⟨hrule, hname, -⟩ := hp
    unfold line
    split
    · exact proper_nameLine hrule.1 hrule.ne_range hrule.ne_token
    · refine ⟨hrule.1, hrule.ne_range, hrule.ne_token, ?_⟩
      rintro n ⟨⟩
      exact hname.1

/-! ### Lines and trees -/

theorem onto_guarded (hp : p.Plain) (hline : ∀ w, p.line.onto w = p.render.toList ++ w)
    (least : Nat) (w : List Char) :
    (p.line.guarded least).onto w = (guarded least p p.render).toList ++ w := by
  unfold Line.guarded guarded
  rw [level_line hp]
  split
  · show '(' :: p.line.onto (')' :: w) = _
    rw [hline]
    simp
  · exact hline w

theorem onto_pair (s : Separator) (hp : p.Plain) (hq : q.Plain)
    (hpline : ∀ w, p.line.onto w = p.render.toList ++ w)
    (hqline : ∀ w, q.line.onto w = q.render.toList ++ w) (w : List Char) :
    (Line.pair s p.line q.line).onto w = (guarded s.least p p.render).toList ++
      s.onto ((guarded s.leastBehind q q.render).toList ++ w) := by
  rw [Line.pair, Line.onto_join, onto_guarded hp hpline, onto_guarded hq hqline]

theorem onto_mark (m : Mark) (hp : p.Plain) (hline : ∀ w, p.line.onto w = p.render.toList ++ w)
    (w : List Char) :
    (Line.last p.line.atom (some m)).onto w = (guarded 6 p p.render).toList ++ m.sign :: w := by
  have hguarded := onto_guarded hp hline 6 (m.sign :: w)
  rw [Line.guarded_six] at hguarded
  exact hguarded

/-- The line of a tree has the text of the tree. -/
theorem onto_line (hp : p.Plain) (w : List Char) : p.line.onto w = p.render.toList ++ w := by
  induction p generalizing w with
  | set | keyword | keywordList => exact hp.elim
  | empty | anyChar | atEnd | oneOf => rfl
  | char c =>
    rw [render, toList_quotedWith]
    simp [line, Line.onto, Atom.onto, markOnto]
  | literal text =>
    rw [render, toList_quotedWith]
    rfl
  | range first last => simp [line, Line.onto, Atom.onto, markOnto, rangeWord, render, quotedTail]
  | sequence l r ihl ihr | alternative l r ihl ihr | difference l r ihl ihr
  | exclusiveOr l r ihl ihr | intersection l r ihl ihr | list l r ihl ihr =>
    rw [line, onto_pair _ hp.1 hp.2 (ihl hp.1) (ihr hp.2), render]
    simp [Separator.onto, Separator.sign?, Separator.least, Separator.leastBehind]
  | optional body ih | star body ih | plus body ih | expectation body ih =>
    have hbody : body.Plain := hp
    rw [line, onto_mark _ hbody (ih hbody), render]
    simp [Mark.sign]
  | grouping body ih | token body ih =>
    rw [render]
    simp [line, Line.onto, Atom.onto, markOnto, tokenWord, ih hp]
  | action a body ih => exact ih hp w
  | nonterminal rule name args =>
    have hrender : (nonterminal rule name args : Parser V String α).render =
      if name = rule then rule else rule ++ ":" ++ name := rfl
    rw [line, hrender]
    split
    · rfl
    · simp [Line.onto, Atom.onto, markOnto]

theorem named_class (cls : CharClass) : (named cls.name : Parser V String α) = .oneOf cls := by
  cases cls <;> rfl

theorem named_free {name : String} (h : IsFreeName name) :
    (named name : Parser V String α) = .nonterminal name name [] := by
  have hclass : CharClass.ofName? name = none := by
    rw [CharClass.ofName?, List.find?_eq_none]
    intro cls hcls hname
    obtain rfl := beq_iff_eq.1 hname
    exact h.2 (List.mem_append_right _ (List.mem_map_of_mem hcls))
  have hempty : name ≠ "empty" := h.ne "empty" (by decide)
  have hanyChar : name ≠ "anychar" := h.ne "anychar" (by decide)
  have hatEnd : name ≠ "end" := h.ne "end" (by decide)
  rw [named, if_neg hempty, if_neg hanyChar, if_neg hatEnd, hclass]

/-- The line of a tree stands for the tree, up to what is not shown. -/
theorem tree_line (hp : p.Plain) : p.line.tree {} = p.bare.bracketedRight := by
  induction p with
  | set | keyword | keywordList => exact hp.elim
  | empty | anyChar | atEnd | char | literal | range => rfl
  | oneOf cls => exact named_class cls
  | sequence l r ihl ihr | alternative l r ihl ihr | difference l r ihl ihr
  | exclusiveOr l r ihl ihr | intersection l r ihl ihr | list l r ihl ihr =>
    rw [line, Line.tree_pair, ihl hp.1, ihr hp.2]
    rfl
  | optional body ih | star body ih | plus body ih | expectation body ih =>
    have hbody : body.Plain := hp
    rw [line, Line.tree_mark, ih hbody]
    rfl
  | grouping body ih | action a body ih => exact ih hp
  | token body ih => exact congrArg token (ih hp)
  | nonterminal rule name args =>
    obtain ⟨hrule, -, rfl⟩ := hp
    unfold line
    split
    · next hsame =>
      rw [hsame]
      exact named_free hrule
    · rfl

/-- Grammar notation is unambiguous: plain trees with the same text are the same tree, once actions
and parentheses for the reader are left out and sequences and alternatives are bracketed to the
right. -/
theorem notation_unambiguous {p q : Parser V String α} (hp : p.Plain) (hq : q.Plain)
    (h : p.render = q.render) : p.bare.bracketedRight = q.bare.bracketedRight := by
  have hlines : p.line = q.line :=
    Line.onto_injective (proper_line hp) (proper_line hq) (by rw [onto_line hp, onto_line hq, h])
  calc p.bare.bracketedRight = p.line.tree {} := (tree_line hp).symm
    _ = q.line.tree {} := by rw [hlines]
    _ = q.bare.bracketedRight := tree_line hq

/-- Two trees that differ in their bracketing, in parentheses that one of them has to be shown with,
and in an action. -/
theorem notation_unambiguous_brackets :
    let p : Definition Unit := .sequence (.sequence (.char 'a') (.star (.call "b")))
      (.grouping (.alternative (.literal "cd") (.range '0' '9')))
    let q : Definition Unit := .sequence (.char 'a')
      (.sequence (.star (.call "b")) (.action "x" (.alternative (.literal "cd") (.range '0' '9'))))
    p.Plain ∧ q.Plain ∧ p.render = q.render ∧ p.bare.bracketedRight = q.bare.bracketedRight := by
  intro p q
  have hname : IsFreeName "b" := ⟨by decide +kernel, by decide⟩
  have hp : p.Plain := ⟨⟨trivial, hname, hname, rfl⟩, trivial, trivial⟩
  have hq : q.Plain := ⟨trivial, ⟨hname, hname, rfl⟩, trivial, trivial⟩
  have hsame : p.render = q.render := by decide +kernel
  exact ⟨hp, hq, hsame, notation_unambiguous hp hq hsame⟩

end Parser

end AttrGrammar.Peg

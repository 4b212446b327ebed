import AttrGrammar.Proofs.CppLayout

/-! Following the grammars from lexeme to lexeme. What is to hold at the end of a reader is carried
back through its parts to what has to hold at the beginning, one rule for each way to combine them;
only the lexemes that are left count, for in front of every part all layout has been skipped. -/

namespace AttrGrammar.Cpp
open Text Peg
open Reader Context

variable {α β μ ν : Type}

/-! ### Settled texts -/

theorem Settled.lexemes_cons {w : List Char} (h : Settled w) (hw : w ≠ []) :
    lexemes w = firstLexeme w :: lexemes (behindLexeme w) := by
  rw [lexemes.eq_def w, h.skipLayout_eq, dif_neg hw]

/-- The first lexeme of a settled text is the one that the text begins with. -/
theorem Settled.first_eq_iff {w t : List Char} (h : Settled w) (ht : t ≠ []) :
    firstLexeme w = t ↔ (lexemes w).head? = some t := by
  cases w with
  | nil =>
      rw [lexemes_nil]
      exact ⟨fun hfirst => absurd hfirst.symm ht, nofun⟩
  | cons c w => rw [h.lexemes_cons (by simp), List.head?_cons, Option.some.injEq]

theorem Settled.head?_ne_comment {w : List Char} (h : Settled w) :
    (lexemes w).head? ≠ some "/*".toList :=
  mt (h.first_eq_iff (by decide)).2 (mt comment_prefix_iff.2 h.comment)

theorem lexemes_blank (w : List Char) : lexemes (' ' :: w) = lexemes w := by
  have hblank : skipLayout (' ' :: w) = skipLayout w := skipLayout_some rfl
  rw [← lexemes_skipLayout, hblank, lexemes_skipLayout]

/-- A lexeme with a blank behind it. -/
theorem lexemes_spaced {t w : List Char} (hsettled : Settled (t ++ ' ' :: w))
    (hfirst : firstLexeme (t ++ ' ' :: w) = t) : lexemes (t ++ ' ' :: w) = t :: lexemes w := by
  rw [hsettled.lexemes_cons (by simp), behindLexeme_eq hfirst, hfirst, lexemes_blank]

/-! ### Endings -/

/-- In what ways reading may end: with a hit that leaves some lexemes and a result, with a miss, or
for good. -/
structure Endings (α μ : Type) where
  hit : List (List Char) → α → Prop
  miss : μ → Prop
  stop : Stop → Prop

namespace Endings

/-- The outcome is one of these endings. -/
def Admits (E : Endings α μ) : Outcome α μ Unit → Prop
  | .hit rest a _ => E.hit (lexemes rest) a
  | .miss m _ => E.miss m
  | .stop why _ => E.stop why

/-- A hit of which something holds; nothing is said of the other endings. -/
def onHit (P : List (List Char) → α → Prop) : Endings α μ := ⟨P, fun _ => True, fun _ => True⟩

/-- Nothing but a hit that leaves these lexemes and has this result. -/
def exactly (ls : List (List Char)) (a : α) : Endings α μ :=
  ⟨fun ls' a' => ls' = ls ∧ a' = a, fun _ => False, fun _ => False⟩

variable {E E' : Endings α μ} {o : Outcome α μ Unit}

theorem Admits.mono (h : E.Admits o) (hhit : ∀ ls a, E.hit ls a → E'.hit ls a)
    (hmiss : ∀ m, E.miss m → E'.miss m) (hstop : ∀ why, E.stop why → E'.stop why) :
    E'.Admits o := by
  cases o with
  | hit rest a u => exact hhit _ _ h
  | miss m u => exact hmiss _ h
  | stop why u => exact hstop _ h

theorem Admits.andThen {P : List (List Char) → α → Prop} {F : Endings β μ}
    {next : List Char → α → Unit → Outcome β μ Unit} (h : Admits ⟨P, F.miss, F.stop⟩ o)
    (hnext : ∀ rest a u, P (lexemes rest) a → F.Admits (next rest a u)) :
    F.Admits (o.andThen next) := by
  cases o with
  | hit rest a u => exact hnext rest a u h
  | miss m u => exact h
  | stop why u => exact h

theorem Admits.orElse {R : μ → Prop} {F : Endings α ν} {other : μ → Unit → Outcome α ν Unit}
    (h : Admits ⟨F.hit, R, F.stop⟩ o) (hother : ∀ m u, R m → F.Admits (other m u)) :
    F.Admits (o.orElse other) := by
  cases o with
  | hit rest a u => exact h
  | miss m u => exact hother m u h
  | stop why u => exact h

theorem Admits.map {F : Endings β ν} {onHit : α → β} {onMiss : μ → ν}
    (h : Admits ⟨fun ls a => F.hit ls (onHit a), fun m => F.miss (onMiss m), F.stop⟩ o) :
    F.Admits (o.map onHit onMiss) := by
  cases o <;> exact h

/-- Two texts that are read alike come to the same endings, unless reading stops. -/
theorem Admits.same {o' : Outcome α μ Unit} (h : E.Admits o) (hsame : SameOutcome o o')
    (hgoesOn : ∀ why, ¬ E.stop why) : E.Admits o' := by
  cases hsame with
  | hit hrest a u => exact (congrArg (E.hit · a) hrest).mp h
  | miss m u => exact h
  | stop why why' u u' => exact absurd h (hgoesOn why)

end Endings

/-- From every settled text with these lexemes the reader comes to one of the endings. -/
def Leads (x : Reader Value Unit) (ls : List (List Char)) (f : Frame Value)
    (E : Endings (Frame Value) (Frame Value)) : Prop :=
  ∀ w u, Settled w → lexemes w = ls → E.Admits (x w f u)

/-- The same for a rule. -/
def RuleLeads (call : Callee Value Unit) (ls : List (List Char))
    (E : Endings (Option Value) Unit) : Prop :=
  ∀ w u, Settled w → lexemes w = ls → E.Admits (call [] w u)

theorem RuleLeads.mono {call : Callee Value Unit} {ls : List (List Char)}
    {E E' : Endings (Option Value) Unit} (h : RuleLeads call ls E)
    (hhit : ∀ ls v, E.hit ls v → E'.hit ls v) (hmiss : ∀ m, E.miss m → E'.miss m)
    (hstop : ∀ why, E.stop why → E'.stop why) : RuleLeads call ls E' :=
  fun w u hw hls => (h w u hw hls).mono hhit hmiss hstop

/-- The rule reads nothing in front of these lexemes. -/
def RuleMisses (call : Callee Value Unit) (ls : List (List Char)) : Prop :=
  RuleLeads call ls ⟨fun _ _ => False, fun _ => True, fun _ => False⟩

/-- Whatever stops a gap in front of these lexemes is an admitted reason to stop. -/
def Passes (gap : Reader Value Unit) (stop : Stop → Prop) (ls : List (List Char)) : Prop :=
  ∀ w f u why v, lexemes w = ls → gap w f u = .stop why v → stop why

/-- Before a lexeme that opens no comment a gap is crossed. -/
theorem gap_settles {levels : Nat} (hlevels : 1 ≤ levels) {w : List Char}
    (hw : (lexemes w).head? ≠ some "/*".toList) (f : Frame Value) (u : Unit) :
    Settled (skipLayout w) ∧ gap levels true w f u = .hit (skipLayout w) f u := by
  obtain ⟨levels, rfl⟩ := Nat.exists_eq_add_of_le' hlevels
  have hcomment : ¬ "/*".toList <+: skipLayout w := by
    rw [comment_prefix_iff, firstLexeme_skipLayout]
    intro hfirst
    apply hw
    cases hhead : (lexemes w).head? with
    | none =>
        rw [hhead] at hfirst
        cases hfirst
    | some l =>
        rw [hhead] at hfirst
        exact congrArg some hfirst
  exact ⟨⟨behindPiece_skipLayout w, hcomment⟩, (gap_eq w f u levels).trans (if_neg hcomment)⟩

theorem passes_gap {levels : Nat} (hlevels : 1 ≤ levels) {ls : List (List Char)}
    (hls : ls.head? ≠ some "/*".toList) (stop : Stop → Prop) :
    Passes (gap levels true) stop ls := by
  rintro w f u why v rfl hstop
  rw [(gap_settles hlevels hls f u).2] at hstop
  cases hstop

theorem passes_settled {levels : Nat} (hlevels : 1 ≤ levels) {w : List Char} (hw : Settled w)
    {stop : Stop → Prop} : Passes (gap levels true) stop (lexemes w) :=
  passes_gap hlevels hw.head?_ne_comment stop

section

variable {gap x y : Reader Value Unit} {call : Callee Value Unit} {ls : List (List Char)}
  {f : Frame Value} {P I : List (List Char) → Frame Value → Prop} {R : Frame Value → Prop}
  {S : Stop → Prop} {E : Endings (Frame Value) (Frame Value)} {F : Endings (Option Value) Unit}

/-- Behind a gap the text is settled and has the same lexemes. -/
theorem Crosses.admits (hgap : Crosses gap) {w : List Char} (hpass : Passes gap S (lexemes w))
    (hx : Leads x (lexemes w) f ⟨P, R, S⟩) (u : Unit) :
    Endings.Admits ⟨P, R, S⟩ (gap.seq x w f u) := by
  rcases hgap with hstops | hcrosses
  · obtain ⟨why, v, hw⟩ := hstops w f u
    rw [seq_stop hw]
    exact hpass w f u why v rfl hw
  · have hw := hcrosses w f u
    by_cases hcomment : "/*".toList <+: skipLayout w
    · rw [if_pos hcomment] at hw
      rw [seq_stop hw]
      exact hpass w f u _ _ rfl hw
    · rw [if_neg hcomment] at hw
      rw [seq_hit hw]
      exact hx _ u ⟨behindPiece_skipLayout w, hcomment⟩ (lexemes_skipLayout w)

/-- What holds before each round with a gap before it is an ending where the round misses. -/
theorem admits_iterate (hgap : Crosses gap) (hreads : (gap.seq x).Reads 1)
    (hpass : ∀ ls f, I ls f → Passes gap S ls)
    (hround : ∀ ls f, I ls f → Leads x ls f ⟨I, P ls, S⟩) {w : List Char} {f : Frame Value}
    (h : I (lexemes w) f) (u : Unit) : Endings.Admits ⟨P, R, S⟩ (iterate (gap.seq x) w f u) := by
  have hadmits := hgap.admits (hpass _ _ h) (hround _ _ h) u
  cases hresult : gap.seq x w f u with
  | hit rest f' u' =>
      rw [hresult] at hadmits
      have hlt : rest.length < w.length := hreads _ _ _ _ _ _ hresult
      rw [iterate_hit hresult hlt]
      exact admits_iterate hgap hreads hpass hround hadmits u'
  | miss f' u' =>
      rw [hresult] at hadmits
      rw [iterate_miss hresult]
      exact hadmits
  | stop why u' =>
      rw [hresult] at hadmits
      rw [iterate_stop hresult]
      exact hadmits
  termination_by w.length

/-! ### Combinations -/

namespace Leads

theorem mono {E' : Endings (Frame Value) (Frame Value)} (hx : Leads x ls f E)
    (hhit : ∀ ls f, E.hit ls f → E'.hit ls f) (hmiss : ∀ f, E.miss f → E'.miss f)
    (hstop : ∀ why, E.stop why → E'.stop why) : Leads x ls f E' :=
  fun w u hw hls => (hx w u hw hls).mono hhit hmiss hstop

theorem spaced (hgap : Crosses gap)
    (hx : Leads x ls f ⟨fun ls f => Passes gap E.stop ls ∧ Leads y ls f E, E.miss, E.stop⟩) :
    Leads (spaced gap x y) ls f E :=
  fun w u hw hls => (hx w u hw hls).andThen fun _ _ u h => hgap.admits h.1 h.2 u

theorem choice (hx : Leads x ls f ⟨E.hit, fun f => Leads y ls f E, E.stop⟩) :
    Leads (x.choice y) ls f E :=
  fun w u hw hls => (hx w u hw hls).orElse fun _ u h => h w u hw hls

theorem optional (hx : Leads x ls f ⟨E.hit, E.hit ls, E.stop⟩) :
    Leads (Reader.optional x) ls f E := by
  rintro w u hw rfl
  exact (hx w u hw rfl).orElse fun _ _ h => h

theorem expect (hx : Leads x ls f ⟨E.hit, fun _ => E.stop .expected, E.stop⟩) :
    Leads (expect x) ls f E :=
  fun w u hw hls => (hx w u hw hls).orElse fun _ _ h => h

/-- An action that, whatever was read, changes the frame and does nothing else. -/
theorem action {run : ActionContext Value Unit → ActionContext Value Unit}
    (hx : Leads x ls f ⟨fun ls f => ∃ f', (∀ text, run (.of f text ()) = .of f' text ()) ∧
      E.hit ls f', E.miss, E.stop⟩) : Leads (action run x) ls f E := by
  refine fun w u hw hls => (hx w u hw hls).andThen fun rest f u h => ?_
  obtain ⟨f', hrun, hhit⟩ := h
  rw [hrun]
  exact hhit

theorem nonterminal {instanceName : String}
    (hcall : RuleLeads call ls
      ⟨fun ls v => E.hit ls (v.elim f (f.setInstance instanceName)), fun _ => E.miss f, E.stop⟩) :
    Leads (.nonterminal call instanceName []) ls f E :=
  fun w u hw hls => (hcall w u hw hls).map

/-- A rule of which it is known what it returns and what it leaves. -/
theorem nonterminal_exactly {instanceName : String} {next : List (List Char)} {v : Value}
    (hcall : RuleLeads call ls (.exactly next (some v)))
    (hhit : E.hit next (f.setInstance instanceName v)) :
    Leads (.nonterminal call instanceName []) ls f E := by
  refine .nonterminal (hcall.mono ?_ (fun _ => False.elim) fun _ => False.elim)
  rintro _ _ ⟨rfl, rfl⟩
  exact hhit

theorem nonterminal_misses {instanceName : String} (hcall : RuleMisses call ls) (hmiss : E.miss f) :
    Leads (.nonterminal call instanceName []) ls f E :=
  .nonterminal (hcall.mono (fun _ _ => False.elim) (fun _ _ => hmiss) fun _ => False.elim)

/-- A repetition of what always reads something. -/
theorem star (hgap : Crosses gap) (hgapReads : gap.Reads 0) (hreads : x.Reads 1)
    (hpass : ∀ ls f, I ls f → Passes gap E.stop ls)
    (hround : ∀ ls f, I ls f → Leads x ls f ⟨I, E.hit ls, E.stop⟩) (h : I ls f) :
    Leads (Reader.star gap x) ls f E := by
  refine optional fun w u hw hls => ?_
  unfold plus
  rw [hreads.progress_eq]
  have hrounds : (gap.seq x).Reads 1 := hgapReads.seq hreads
  have hfirst := hround ls f h w u hw hls
  cases hresult : x w f u with
  | hit rest f' u' =>
      rw [hresult] at hfirst
      have hlt : rest.length < w.length := hreads _ _ _ _ _ _ hresult
      rw [Outcome.andThen_hit, if_pos hlt]
      exact admits_iterate hgap hrounds hpass hround hfirst u'
  | miss f' u' =>
      rw [hresult] at hfirst
      exact hfirst
  | stop why u' =>
      rw [hresult] at hfirst
      exact hfirst

/-! ### Single lexemes -/

/-- What reads one lexeme, or misses where another one stands. -/
theorem of_first {t : List Char} (ht : t ≠ [])
    (hx : ∀ w u, Settled w → lexemes w = ls → x w f u =
      if firstLexeme w = t then .hit (behindLexeme w) f u else .miss f u)
    (hhit : ∀ ls', ls = t :: ls' → E.hit ls' f) (hmiss : ls.head? ≠ some t → E.miss f) :
    Leads x ls f E := by
  rintro w u hw rfl
  rw [hx w u hw rfl]
  by_cases hfirst : firstLexeme w = t
  · have hne : w ≠ [] := by
      rintro rfl
      exact ht hfirst.symm
    rw [if_pos hfirst]
    exact hhit _ (by rw [hw.lexemes_cons hne, hfirst])
  · rw [if_neg hfirst]
    exact hmiss (mt (hw.first_eq_iff ht).2 hfirst)

theorem char {c : Char} (hc : Longest [c]) (hhit : ∀ ls', ls = [c] :: ls' → E.hit ls' f)
    (hmiss : ls.head? ≠ some [c] → E.miss f) : Leads (oneChar (· == c)) ls f E := by
  rw [oneChar_eq_literal]
  exact of_first (by simp) (fun _ _ _ _ => literal_mark_eq hc.1 hc.first_eq f _) hhit hmiss

theorem mark {c : Char} (hc : c ∈ punctuation) (hhit : ∀ ls', ls = [c] :: ls' → E.hit ls' f)
    (hmiss : ls.head? ≠ some [c] → E.miss f) : Leads (oneChar (· == c)) ls f E :=
  char (longest_punctuation hc) hhit hmiss

theorem keyword {word : String} (hword : word ∈ keywords)
    (hhit : ∀ ls', ls = word.toList :: ls' → E.hit ls' f)
    (hmiss : ls.head? ≠ some word.toList → E.miss f) : Leads (readKeyword word) ls f E := by
  have hne : word.toList ≠ [] := by
    have hstart := (keywords_spec word hword).1
    intro h
    rw [h] at hstart
    cases hstart
  exact of_first hne (fun w u _ _ => readKeyword_eq hword w f u) hhit hmiss

theorem operator {operators : List BinaryOp}
    (hpicks : ∀ l ∈ marks, l ≠ "/*".toList → Picks operators l)
    (hhit : ∀ op ∈ operators, ∀ ls', ls = op.symbol.toList :: ls' →
      E.hit ls' (f.setLocal "op" (.operator op)).2)
    (hmiss : (∀ op ∈ operators, ls.head? ≠ some op.symbol.toList) → E.miss f) :
    Leads (readOperator operators) ls f E := by
  rintro w u hw rfl
  have hsymbol (op : BinaryOp) : op.symbol.toList ≠ [] := by cases op <;> decide
  rw [readOperator_eq (picks_of_marks hpicks hw)]
  cases hfind : operators.find? (·.symbol.toList == firstLexeme w) with
  | none =>
      refine hmiss fun op hop => mt (hw.first_eq_iff (hsymbol op)).2 fun h => ?_
      have hother := List.find?_eq_none.1 hfind op hop
      exact hother (by simp [h])
  | some op =>
      have hop : op.symbol.toList = firstLexeme w := by simpa using List.find?_some hfind
      have hne : w ≠ [] := by
        rintro rfl
        exact hsymbol op hop
      refine hhit op (List.mem_of_find?_eq_some hfind) _ ?_
      rw [hw.lexemes_cons hne, hop]

end Leads

/-- What is read from one text is read from every text with the same lexemes. -/
theorem RuleLeads.of_hit (hcall : LexicalRule call) {w rest : List Char} {v : Option Value}
    (hw : Settled w) (h : call [] w () = .hit rest v ()) :
    RuleLeads call (lexemes w) (.exactly (lexemes rest) v) := by
  intro w' u hw' hlexemes
  have hsame := hcall [] w w' u ⟨hw, hw', hlexemes.symm⟩
  rw [h] at hsame
  exact .same (show Endings.Admits _ (.hit rest v u) from ⟨rfl, rfl⟩) hsame fun _ => id

/-- A rule with an own frame, in which it leaves the value that it returns. -/
theorem RuleLeads.activation {locals : List String}
    (hx : Leads x ls ((Frame.ofLocals locals).bindInherited [] [])
      ⟨fun ls f => ∃ v, f.value = some v ∧ F.hit ls (some v), fun _ => F.miss (), F.stop⟩) :
    RuleLeads (activation locals [] true x) ls F := by
  intro w u hw hls
  have hadmits := hx w u hw hls
  unfold Peg.activation
  cases hresult : x w ((Frame.ofLocals locals).bindInherited [] []) u with
  | hit rest f u' =>
      rw [hresult] at hadmits
      obtain ⟨v, hv, hhit⟩ := hadmits
      dsimp only
      rw [if_pos rfl, hv]
      exact hhit
  | miss f u' =>
      rw [hresult] at hadmits
      exact hadmits
  | stop why u' =>
      rw [hresult] at hadmits
      exact hadmits

end

/-! ### Whole texts -/

theorem skipLayout_eq_nil_iff {w : List Char} : skipLayout w = [] ↔ lexemes w = [] := by
  rw [lexemes.eq_def w]
  split
  · next h => simp [h]
  · next h => simp [h]

section

variable {levels : Nat} {start : String} {text : List Char} {pick : Value → Option α}

/-- What is picked from a whole text was returned by the start rule, which left no lexeme. -/
theorem hit_of_picked {F : Endings (Option Value) Unit} {a : α}
    (h : RuleLeads (reader levels true start) (lexemes text) F)
    (hpicked : picked pick (readWhole levels start text) = some a) :
    ∃ v, pick v = some a ∧ F.hit [] (some v) := by
  unfold readWhole Reader.whole at hpicked
  rcases crosses_gap levels with hstops | hcrosses
  · obtain ⟨why, v, hw⟩ := hstops text (.ofLocals []) ()
    rw [hw] at hpicked
    cases hpicked
  rw [hcrosses] at hpicked
  by_cases hcomment : "/*".toList <+: skipLayout text
  · rw [if_pos hcomment] at hpicked
    cases hpicked
  rw [if_neg hcomment, Outcome.map_hit, Outcome.andThen_hit] at hpicked
  have hadmits := h _ () ⟨behindPiece_skipLayout text, hcomment⟩ (lexemes_skipLayout text)
  cases hresult : reader levels true start [] (skipLayout text) () with
  | hit rest value u =>
      rw [hresult] at hpicked hadmits
      rw [Outcome.andThen_hit, hcrosses] at hpicked
      by_cases hopen : "/*".toList <+: skipLayout rest
      · rw [if_pos hopen] at hpicked
        cases hpicked
      rw [if_neg hopen, Outcome.map_hit] at hpicked
      cases hrest : skipLayout rest with
      | nil =>
          rw [hrest] at hpicked
          have hbound : value.bind pick = some a := hpicked
          obtain ⟨v, rfl, hv⟩ := Option.bind_eq_some_iff.1 hbound
          refine ⟨v, hv, ?_⟩
          rw [← skipLayout_eq_nil_iff.1 hrest]
          exact hadmits
      | cons c back =>
          rw [hrest] at hpicked
          cases hpicked
  | miss m u =>
      rw [hresult] at hpicked
      cases hpicked
  | stop why u =>
      rw [hresult] at hpicked
      cases hpicked

/-- If the start rule leaves no lexeme, what it returns is picked from the whole text. -/
theorem picked_of_exactly {v : Value} (hlevels : 1 ≤ levels)
    (hopens : (lexemes text).head? ≠ some "/*".toList)
    (h : RuleLeads (reader levels true start) (lexemes text) (.exactly [] (some v))) :
    picked pick (readWhole levels start text) = pick v := by
  obtain ⟨hsettled, hlead⟩ := gap_settles hlevels hopens (.ofLocals []) ()
  have hadmits := h _ () hsettled (lexemes_skipLayout text)
  unfold readWhole Reader.whole
  rw [hlead, Outcome.map_hit, Outcome.andThen_hit]
  cases hresult : reader levels true start [] (skipLayout text) () with
  | hit rest value u =>
      rw [hresult] at hadmits
      obtain ⟨hrest, rfl⟩ := hadmits
      have hnone : (lexemes rest).head? ≠ some "/*".toList := by simp [hrest]
      have htrail := (gap_settles hlevels hnone (.ofLocals []) u).2
      rw [Outcome.andThen_hit, htrail, Outcome.map_hit, skipLayout_eq_nil_iff.2 hrest]
      rfl
  | miss m u =>
      rw [hresult] at hadmits
      cases hadmits
  | stop why u =>
      rw [hresult] at hadmits
      cases hadmits

end

end AttrGrammar.Cpp

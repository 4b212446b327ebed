import AttrGrammar.Proofs.Reader

/-! How deeply activations nest. Where no rule can come back to itself before it has read something,
the text bounds the number of activations that are open at once, and it makes no difference whether
more of them may be nested. Both halves of the premise can be told from the trees: how much a hit
reads at least, and which rules may be called while nothing has been read. -/

namespace AttrGrammar.Peg
open Text

variable {V W ρ α β μ ν : Type}

namespace Outcome

variable {o : Outcome α μ W} {rest : List Char} {u : W}

theorem andThen_eq_hit {next : List Char → α → W → Outcome β μ W} {b : β} :
    o.andThen next = .hit rest b u ↔ ∃ w a v, o = .hit w a v ∧ next w a v = .hit rest b u := by
  constructor
  · intro h
    cases o with
    | hit w a v => exact ⟨w, a, v, rfl, h⟩
    | _ => cases h
  · rintro ⟨w, a, v, rfl, h⟩
    exact h

theorem orElse_eq_hit {other : μ → W → Outcome α ν W} {a : α} :
    o.orElse other = .hit rest a u ↔
      o = .hit rest a u ∨ ∃ m v, o = .miss m v ∧ other m v = .hit rest a u := by
  constructor
  · intro h
    cases o with
    | hit w b v =>
        cases h
        exact .inl rfl
    | miss m v => exact .inr ⟨m, v, rfl, h⟩
    | stop why v => cases h
  · rintro (rfl | ⟨m, v, rfl, h⟩)
    · rfl
    · exact h

theorem map_eq_hit {onHit : α → β} {onMiss : μ → ν} {b : β} :
    o.map onHit onMiss = .hit rest b u ↔ ∃ a, o = .hit rest a u ∧ onHit a = b := by
  constructor
  · intro h
    cases o with
    | hit w a v =>
        cases h
        exact ⟨a, rfl, rfl⟩
    | _ => cases h
  · rintro ⟨a, rfl, rfl⟩
    rfl

end Outcome

/-! ### What a hit reads at least -/

/-- Every hit reads so many characters. -/
def Reader.Reads (n : Nat) (x : Reader V W) : Prop :=
  ∀ w f u rest f' u', x w f u = .hit rest f' u' → rest.length + n ≤ w.length

/-- Every hit of the rule reads so many characters. -/
def Callee.Reads (n : Nat) (call : Callee V W) : Prop :=
  ∀ args w u rest v u', call args w u = .hit rest v u' → rest.length + n ≤ w.length

namespace Reader.Reads

variable {x y gap : Reader V W} {call : Callee V W} {m n : Nat}

theorem mono (h : Reads n x) (hle : m ≤ n) : Reads m x := by
  intro w f u rest f' u' hhit
  have := h w f u rest f' u' hhit
  omega

theorem nothing : Reads 0 (nothing : Reader V W) := by
  rintro w f u rest f' u' ⟨⟩
  exact Nat.le_refl _

theorem oneChar (accept : Char → Bool) : Reads 1 (oneChar accept : Reader V W) := by
  intro w f u rest f' u' h
  cases w with
  | nil => cases h
  | cons c w =>
      unfold Reader.oneChar at h
      dsimp only at h
      split at h
      · cases h
        exact Nat.le_refl _
      · cases h

theorem atEnd : Reads 0 (atEnd : Reader V W) := by
  intro w f u rest f' u' h
  cases w with
  | nil =>
      cases h
      exact Nat.le_refl _
  | cons c w => cases h

theorem literal (word : List Char) : Reads word.length (literal word : Reader V W) := by
  intro w f u rest f' u' h
  unfold Reader.literal at h
  split at h
  · next hbegins =>
    obtain ⟨back, rfl⟩ := hbegins
    cases h
    simp [Nat.add_comm]
  · cases h

theorem seq (hx : Reads m x) (hy : Reads n y) : Reads (m + n) (x.seq y) := by
  intro w f u rest f' u' h
  obtain ⟨mid, a, v, hhit, hnext⟩ := Outcome.andThen_eq_hit.1 h
  have hfirst := hx _ _ _ _ _ _ hhit
  have hsecond := hy _ _ _ _ _ _ hnext
  omega

theorem choice (hx : Reads m x) (hy : Reads n y) : Reads (min m n) (x.choice y) := by
  intro w f u rest f' u' h
  rcases Outcome.orElse_eq_hit.1 h with hhit | ⟨f'', v, -, hhit⟩
  · exact (hx.mono (Nat.min_le_left m n)) _ _ _ _ _ _ hhit
  · exact (hy.mono (Nat.min_le_right m n)) _ _ _ _ _ _ hhit

theorem optional (hx : Reads n x) : Reads 0 (optional x) :=
  (hx.choice nothing).mono (Nat.zero_le _)

theorem expect (hx : Reads n x) : Reads n (expect x) := by
  intro w f u rest f' u' h
  rcases Outcome.orElse_eq_hit.1 h with hhit | ⟨f'', v, -, hstop⟩
  · exact hx _ _ _ _ _ _ hhit
  · cases hstop

theorem keyword (word : List Char) (goesOn : Reader V W) :
    Reads word.length (keyword word goesOn) := by
  intro w f u rest f' u' h
  obtain ⟨mid, a, v, hhit, hkept⟩ := Outcome.andThen_eq_hit.1 h
  split at hkept <;> cases hkept
  exact literal word _ _ _ _ _ _ hhit

theorem keywordList (hx : Reads n x) (words : List String) : Reads n (keywordList x words) := by
  intro w f u rest f' u' h
  obtain ⟨mid, a, v, hhit, hkept⟩ := Outcome.andThen_eq_hit.1 h
  split at hkept <;> cases hkept
  exact hx _ _ _ _ _ _ hhit

theorem difference (hx : Reads n x) (y : Reader V W) : Reads n (difference x y) := by
  intro w f u rest f' u' h
  obtain ⟨mid, a, v, hhit, hkept⟩ := Outcome.andThen_eq_hit.1 h
  split at hkept
  · split at hkept <;> cases hkept
    exact hx _ _ _ _ _ _ hhit
  · cases hkept
    exact hx _ _ _ _ _ _ hhit
  · cases hkept

theorem exclusiveOr (hx : Reads m x) (hy : Reads n y) : Reads (min m n) (exclusiveOr x y) := by
  intro w f u rest f' u' h
  unfold Reader.exclusiveOr at h
  split at h
  · next hhit =>
    split at h <;> cases h
    exact (hx.mono (Nat.min_le_left m n)) _ _ _ _ _ _ hhit
  · exact (hy.mono (Nat.min_le_right m n)) _ _ _ _ _ _ h
  · cases h

theorem intersection (hx : Reads n x) (y : Reader V W) : Reads n (intersection x y) := by
  intro w f u rest f' u' h
  obtain ⟨mid, a, v, hhit, hsecond⟩ := Outcome.andThen_eq_hit.1 h
  obtain ⟨mid', a', v', -, hkept⟩ := Outcome.andThen_eq_hit.1 hsecond
  split at hkept <;> cases hkept
  exact hx _ _ _ _ _ _ hhit

theorem progress (hx : Reads n x) : Reads n x.progress := by
  intro w f u rest f' u' h
  obtain ⟨mid, a, v, hhit, hkept⟩ := Outcome.andThen_eq_hit.1 h
  split at hkept <;> cases hkept
  exact hx _ _ _ _ _ _ hhit

/-- What always reads something makes progress. -/
theorem progress_eq (hx : Reads 1 x) : x.progress = x := by
  funext w f u
  unfold Reader.progress
  cases hhit : x w f u with
  | hit rest f' u' => exact if_pos (hx _ _ _ _ _ _ hhit)
  | _ => rfl

theorem iterate (round : Reader V W) : Reads 0 (iterate round) := by
  intro w f u rest f' u' h
  cases hround : round w f u with
  | hit mid f'' u'' =>
      by_cases hlt : mid.length < w.length
      · rw [iterate_hit hround hlt] at h
        have := iterate round mid f'' u'' rest f' u' h
        omega
      · rw [iterate_still hround (Nat.not_lt.1 hlt)] at h
        cases h
        exact Nat.le_refl _
  | miss f'' u'' =>
      rw [iterate_miss hround] at h
      cases h
      exact Nat.le_refl _
  | stop why u'' =>
      rw [iterate_stop hround] at h
      cases h
  termination_by w => w.length

theorem plus (gap : Reader V W) (hx : Reads n x) : Reads n (plus gap x) := by
  intro w f u rest f' u' h
  obtain ⟨mid, a, v, hhit, hrounds⟩ := Outcome.andThen_eq_hit.1 h
  have hfirst := hx _ _ _ _ _ _ hhit
  split at hrounds
  · have hrest := iterate _ _ _ _ _ _ _ hrounds
    omega
  · cases hrounds
    omega

theorem star (gap : Reader V W) (hx : Reads n x) : Reads 0 (star gap x) := (plus gap hx).optional

theorem list (gap y : Reader V W) (hx : Reads n x) : Reads n (list gap x y) :=
  hx.seq (iterate _)

theorem action (run : ActionContext V W → ActionContext V W) (hx : Reads n x) :
    Reads n (action run x) := by
  intro w f u rest f' u' h
  obtain ⟨mid, a, v, hhit, hkept⟩ := Outcome.andThen_eq_hit.1 h
  dsimp only at hkept
  split at hkept
  · cases hkept
  · split at hkept <;> cases hkept
    exact hx _ _ _ _ _ _ hhit

theorem nonterminal (hcall : call.Reads n) (instanceName : String) (args : List (Argument V)) :
    Reads n (nonterminal call instanceName args) := by
  intro w f u rest f' u' h
  unfold Reader.nonterminal at h
  split at h
  · obtain ⟨v, hhit, -⟩ := Outcome.map_eq_hit.1 h
    exact hcall _ _ _ _ _ _ hhit
  · cases h

theorem test (hcall : call.Reads n) : Reads n (test call) := by
  intro w f u rest f' u' h
  obtain ⟨v, hhit, -⟩ := Outcome.map_eq_hit.1 h
  exact hcall _ _ _ _ _ _ hhit

end Reader.Reads

theorem Reader.Reads.activation {n : Nat} {tree : Reader V W} (h : tree.Reads n)
    (locals inherited : List String) (hasValue : Bool) :
    Callee.Reads n (activation locals inherited hasValue tree) := by
  intro args w u rest v u' hhit
  unfold Peg.activation at hhit
  split at hhit
  · next htree =>
    split at hhit
    · split at hhit <;> cases hhit
      exact h _ _ _ _ _ _ htree
    · cases hhit
      exact h _ _ _ _ _ _ htree
  · cases hhit
  · cases hhit

namespace Parser

/-- The least number of characters that a hit of a tree reads, if the rules read so many. -/
def least (reads : ρ → Nat) : Parser V ρ α → Nat
  | empty | atEnd => 0
  | anyChar | char _ | oneOf _ | set _ | range _ _ => 1
  | literal text | keyword text _ => text.toList.length
  | keywordList selector _ => selector.least reads
  | sequence l r => l.least reads + r.least reads
  | alternative l r | exclusiveOr l r => min (l.least reads) (r.least reads)
  | optional _ | star _ => 0
  | plus body | grouping body | token body | expectation body | action _ body => body.least reads
  | difference l _ | intersection l _ => l.least reads
  | list element _ => element.least reads
  | nonterminal rule _ _ => reads rule

theorem reader_reads {reads : ρ → Nat} {gap : Bool → Reader V W} {call : Bool → ρ → Callee V W}
    {run : α → ActionContext V W → ActionContext V W} (hgap : ∀ skips, (gap skips).Reads 0)
    (hcall : ∀ skips rule, (call skips rule).Reads (reads rule)) (p : Parser V ρ α) (skips : Bool) :
    (p.reader gap call run skips).Reads (p.least reads) := by
  induction p generalizing skips with
  | empty => exact .nothing
  | anyChar => exact .oneChar _
  | atEnd => exact .atEnd
  | char c => exact .oneChar _
  | literal text => exact .literal _
  | oneOf cls => exact .oneChar _
  | set s => exact .oneChar _
  | range first last => exact .oneChar _
  | keyword text continuation => cases continuation <;> exact .keyword _ _
  | keywordList selector words ih => exact (ih skips).keywordList words
  | sequence l r ihl ihr =>
      have hrest : ((gap skips).seq (r.reader gap call run skips)).Reads (r.least reads) :=
        ((hgap skips).seq (ihr skips)).mono (Nat.le_add_left _ _)
      exact (ihl skips).seq hrest
  | alternative l r ihl ihr => exact (ihl skips).choice (ihr skips)
  | optional body ih => exact (ih skips).optional
  | star body ih => exact (ih skips).star _
  | plus body ih => exact (ih skips).plus _
  | difference l r ihl => exact (ihl skips).difference _
  | exclusiveOr l r ihl ihr => exact (ihl skips).exclusiveOr (ihr skips)
  | intersection l r ihl => exact (ihl skips).intersection _
  | list element separator ihe => exact (ihe skips).list _ _
  | grouping body ih => exact ih skips
  | token body ih => exact ih false
  | expectation body ih => exact (ih skips).expect
  | action a body ih => exact (ih skips).action _
  | nonterminal rule instanceName args => exact .nonterminal (hcall skips rule) _ _

end Parser

theorem Reader.Reads.gap {call : Bool → ρ → Callee V W}
    (hcall : ∀ skips rule, (call skips rule).Reads 0) (skipRule : Option ρ) (skips : Bool) :
    (Reader.gap skipRule call skips).Reads 0 := by
  unfold Reader.gap
  split
  · exact (Reader.Reads.test (hcall _ _)).optional
  · exact .nothing

/-- If each rule reads what is claimed of it as long as all others do, each one does. -/
theorem declReader_reads {decls : List (RuleDecl V W)} {reads : String → Nat}
    (hreads : ∀ decl ∈ decls, reads decl.name ≤ decl.definition.least reads)
    (skipRule : Option String) (levels : Nat) (skips : Bool) (name : String) :
    (declReader decls skipRule levels skips name).Reads (reads name) := by
  induction levels generalizing skips name with
  | zero =>
      intro args w u rest v u' h
      cases h
  | succ levels ih =>
      intro args w u rest v u' h
      have hmono (skips : Bool) (rule : String) :
          (declReader decls skipRule levels skips rule).Reads 0 := by
        intro args w u rest v u' hhit
        have := ih skips rule args w u rest v u' hhit
        omega
      rw [declReader, calleeOf] at h
      cases hdecl : decls.find? (·.name == name) with
      | none =>
          rw [hdecl] at h
          cases h
      | some decl =>
          rw [hdecl] at h
          have hname : decl.name = name := by simpa using List.find?_some hdecl
          have htree : (decl.definition.reader (.gap skipRule (declReader decls skipRule levels))
              (declReader decls skipRule levels) decl.perform skips).Reads (reads decl.name) :=
            (Parser.reader_reads (Reader.Reads.gap hmono skipRule) ih _ skips).mono
              (hreads decl (List.mem_of_find?_eq_some hdecl))
          rw [← hname]
          exact htree.activation _ _ _ args w u rest v u' h

/-! ### Reading alike -/

/-- Both readers do the same on texts shorter than a bound. -/
def Reader.AgreeBelow (n : Nat) (x x' : Reader V W) : Prop :=
  ∀ w f u, w.length < n → x w f u = x' w f u

namespace Reader.AgreeBelow

variable {x x' y y' gap gap' : Reader V W} {k m n : Nat}

theorem mono (h : AgreeBelow n x x') (hle : m ≤ n) : AgreeBelow m x x' :=
  fun w f u hw => h w f u (Nat.lt_of_lt_of_le hw hle)

theorem refl (x : Reader V W) : AgreeBelow n x x := fun _ _ _ _ => rfl

theorem seq (hx : AgreeBelow n x x') (hreads : x.Reads k) (hy : AgreeBelow (n - k) y y') :
    AgreeBelow n (x.seq y) (x'.seq y') := by
  intro w f u hw
  unfold Reader.seq
  rw [← hx w f u hw]
  cases hhit : x w f u with
  | hit rest f' u' =>
      have := hreads _ _ _ _ _ _ hhit
      exact hy rest f' u' (by omega)
  | _ => rfl

theorem choice (hx : AgreeBelow n x x') (hy : AgreeBelow n y y') :
    AgreeBelow n (x.choice y) (x'.choice y') := by
  intro w f u hw
  unfold Reader.choice
  rw [← hx w f u hw]
  cases x w f u with
  | miss f' u' => exact hy w f' u' hw
  | _ => rfl

theorem optional (hx : AgreeBelow n x x') : AgreeBelow n (optional x) (optional x') :=
  hx.choice (.refl _)

theorem expect (hx : AgreeBelow n x x') : AgreeBelow n (expect x) (expect x') :=
  hx.choice (.refl _)

theorem keyword (word : List Char) (hx : AgreeBelow (n - word.length) x x') :
    AgreeBelow n (keyword word x) (keyword word x') := by
  intro w f u hw
  unfold Reader.keyword
  cases hhit : literal word w f u with
  | hit rest f' u' =>
      have := Reads.literal word _ _ _ _ _ _ hhit
      simp only [Outcome.andThen_hit, hx rest f' u' (by omega)]
  | _ => rfl

theorem keywordList (hx : AgreeBelow n x x') (words : List String) :
    AgreeBelow n (keywordList x words) (keywordList x' words) := by
  intro w f u hw
  unfold Reader.keywordList
  rw [hx w f u hw]

theorem difference (hx : AgreeBelow n x x') (hy : AgreeBelow n y y') :
    AgreeBelow n (difference x y) (difference x' y') := by
  intro w f u hw
  unfold Reader.difference
  rw [hx w f u hw]
  simp only [hy w _ _ hw]

theorem exclusiveOr (hx : AgreeBelow n x x') (hy : AgreeBelow n y y') :
    AgreeBelow n (exclusiveOr x y) (exclusiveOr x' y') := by
  intro w f u hw
  unfold Reader.exclusiveOr
  rw [hx w f u hw]
  simp only [hy w _ _ hw]

theorem intersection (hx : AgreeBelow n x x') (hy : AgreeBelow n y y') :
    AgreeBelow n (intersection x y) (intersection x' y') := by
  intro w f u hw
  unfold Reader.intersection
  rw [hx w f u hw]
  simp only [hy w _ _ hw]

theorem progress (hx : AgreeBelow n x x') : AgreeBelow n x.progress x'.progress := by
  intro w f u hw
  unfold Reader.progress
  rw [hx w f u hw]

theorem iterate (hx : AgreeBelow n x x') : AgreeBelow n (iterate x) (iterate x') := by
  intro w f u hw
  have hround := hx w f u hw
  cases hhit : x w f u with
  | hit rest f' u' =>
      by_cases hlt : rest.length < w.length
      · rw [iterate_hit hhit hlt, iterate_hit (hround.symm.trans hhit) hlt]
        exact iterate hx rest f' u' (Nat.lt_trans hlt hw)
      · rw [iterate_still hhit (Nat.not_lt.1 hlt),
          iterate_still (hround.symm.trans hhit) (Nat.not_lt.1 hlt)]
  | miss f' u' => rw [iterate_miss hhit, iterate_miss (hround.symm.trans hhit)]
  | stop why u' => rw [iterate_stop hhit, iterate_stop (hround.symm.trans hhit)]
  termination_by w => w.length

/-- All rounds but the first one read shorter texts. -/
theorem plus (hgap : AgreeBelow n gap gap') (hreads : gap.Reads 0) (hx : AgreeBelow (n + 1) x x') :
    AgreeBelow (n + 1) (plus gap x) (plus gap' x') := by
  intro w f u hw
  have hrounds : AgreeBelow n (Reader.iterate (gap.seq x.progress))
      (Reader.iterate (gap'.seq x'.progress)) :=
    (hgap.seq hreads (hx.mono (Nat.le_succ n)).progress).iterate
  unfold Reader.plus
  rw [← hx w f u hw]
  cases x w f u with
  | hit rest f' u' =>
      rw [Outcome.andThen_hit, Outcome.andThen_hit]
      split
      · exact hrounds rest f' u' (by omega)
      · rfl
  | _ => rfl

theorem action (run : ActionContext V W → ActionContext V W) (hx : AgreeBelow n x x') :
    AgreeBelow n (action run x) (action run x') := by
  intro w f u hw
  unfold Reader.action
  rw [hx w f u hw]

theorem nonterminal {call call' : Callee V W}
    (hcall : ∀ args w u, w.length < n → call args w u = call' args w u) (instanceName : String)
    (args : List (Argument V)) :
    AgreeBelow n (nonterminal call instanceName args) (nonterminal call' instanceName args) := by
  intro w f u hw
  unfold Reader.nonterminal
  simp only [hcall _ w u hw]

theorem test {call call' : Callee V W}
    (hcall : ∀ args w u, w.length < n → call args w u = call' args w u) :
    AgreeBelow n (test call) (test call') := by
  intro w f u hw
  unfold Reader.test
  rw [hcall [] w u hw]

end Reader.AgreeBelow

namespace Parser

/-- While nothing has been read, only rules that `before` admits are called, and gaps are crossed
only if that is allowed. -/
def headed (reads : ρ → Nat) (gapFirst : Bool) (before : ρ → Bool) : Parser V ρ α → Bool
  | empty | anyChar | atEnd | char _ | literal _ | oneOf _ | set _ | range _ _ => true
  | keyword _ none => true
  | keyword text (some rule) => 0 < text.toList.length || before rule
  | keywordList selector _ => selector.headed reads gapFirst before
  | sequence l r =>
    l.headed reads gapFirst before &&
      (0 < l.least reads || (gapFirst && r.headed reads gapFirst before))
  | alternative l r | difference l r | exclusiveOr l r | intersection l r =>
    l.headed reads gapFirst before && r.headed reads gapFirst before
  | optional body | star body | plus body | grouping body | token body | expectation body
  | action _ body => body.headed reads gapFirst before
  | list element separator =>
    element.headed reads gapFirst before &&
      (0 < element.least reads || (gapFirst && separator.headed reads gapFirst before))
  | nonterminal rule _ _ => before rule

/-- Nothing is required where all rules and gaps are allowed. -/
theorem headed_true (reads : ρ → Nat) (p : Parser V ρ α) :
    p.headed reads true (fun _ => true) = true := by
  induction p with
  | keyword text continuation => cases continuation <;> simp [headed]
  | _ => simp_all [headed]

/-- Two meanings of gaps and calls do the same on texts shorter than a bound. On a text that is as
long as the bound they do the same at least where a tree that is headed may call on. -/
structure Agreement (reads : ρ → Nat) (gapFirst : Bool) (before : ρ → Bool) (n : Nat)
    (gap gap' : Bool → Reader V W) (call call' : Bool → ρ → Callee V W) : Prop where
  gapReads : ∀ skips, (gap skips).Reads 0
  callReads : ∀ skips rule, (call skips rule).Reads (reads rule)
  gapBelow : ∀ skips, (gap skips).AgreeBelow n (gap' skips)
  gapHere : gapFirst = true → ∀ skips, (gap skips).AgreeBelow (n + 1) (gap' skips)
  callBelow : ∀ skips rule args w u, w.length < n →
    call skips rule args w u = call' skips rule args w u
  callHere : ∀ rule, before rule = true → ∀ skips args w u, w.length < n + 1 →
    call skips rule args w u = call' skips rule args w u

namespace Agreement

variable {reads : ρ → Nat} {gapFirst : Bool} {before : ρ → Bool} {n : Nat}
  {gap gap' : Bool → Reader V W} {call call' : Bool → ρ → Callee V W}

/-- Nothing is excepted for shorter texts. -/
theorem below (h : Agreement reads gapFirst before (n + 1) gap gap' call call') :
    Agreement reads true (fun _ => true) n gap gap' call call' where
  gapReads := h.gapReads
  callReads := h.callReads
  gapBelow skips := (h.gapBelow skips).mono (Nat.le_succ n)
  gapHere _ := h.gapBelow
  callBelow skips rule args w u hw := h.callBelow skips rule args w u (Nat.lt_succ_of_lt hw)
  callHere rule _ skips args w u hw := h.callBelow skips rule args w u hw

end Agreement

section

variable (reads : ρ → Nat) (gap gap' : Bool → Reader V W) (call call' : Bool → ρ → Callee V W)
  (run : α → ActionContext V W → ActionContext V W)

/-- Wherever the tree is headed it does the same, also on texts as long as the bound. -/
def Agrees (p : Parser V ρ α) : Prop :=
  ∀ (gapFirst : Bool) (before : ρ → Bool) (n : Nat),
    Agreement reads gapFirst before n gap gap' call call' → p.headed reads gapFirst before →
    ∀ skips, (p.reader gap call run skips).AgreeBelow (n + 1) (p.reader gap' call' run skips)

variable {reads gap gap' call call' run}

/-- On shorter texts it does the same in any case. -/
theorem Agrees.below {p : Parser V ρ α} (hp : p.Agrees reads gap gap' call call' run)
    {gapFirst : Bool} {before : ρ → Bool} {n : Nat}
    (h : Agreement reads gapFirst before n gap gap' call call') (skips : Bool) :
    (p.reader gap call run skips).AgreeBelow n (p.reader gap' call' run skips) := by
  cases n with
  | zero => exact fun w f u hw => absurd hw (Nat.not_lt_zero _)
  | succ n => exact hp true _ n h.below (headed_true reads p) skips

theorem agrees (p : Parser V ρ α) : p.Agrees reads gap gap' call call' run := by
  induction p with
  | empty | anyChar | atEnd | char _ | literal _ | oneOf _ | set _ | range _ _ =>
      exact fun _ _ _ _ _ _ => .refl _
  | keyword text continuation =>
      intro gapFirst before n h hp skips
      cases continuation with
      | none => exact .refl _
      | some rule =>
          rw [headed, Bool.or_eq_true, decide_eq_true_eq] at hp
          refine .keyword _ (.test fun args w u hw => ?_)
          rcases hp with hread | hrule
          · exact h.callBelow skips rule args w u (by omega)
          · exact h.callHere rule hrule skips args w u (by omega)
  | keywordList selector words ih =>
      exact fun gapFirst before n h hp skips => (ih gapFirst before n h hp skips).keywordList words
  | sequence l r ihl ihr =>
      intro gapFirst before n h hp skips
      rw [headed, Bool.and_eq_true, Bool.or_eq_true, Bool.and_eq_true, decide_eq_true_eq] at hp
      obtain ⟨hl, hr⟩ := hp
      have hreads : (l.reader gap call run skips).Reads (l.least reads) :=
        reader_reads h.gapReads h.callReads l skips
      refine (ihl gapFirst before n h hl skips).seq hreads ?_
      rcases hr with hread | ⟨hgap, hr⟩
      · exact ((h.gapBelow skips).seq (h.gapReads skips) (ihr.below h skips)).mono (by omega)
      · exact ((h.gapHere hgap skips).seq (h.gapReads skips)
          (ihr gapFirst before n h hr skips)).mono (by omega)
  | alternative l r ihl ihr =>
      intro gapFirst before n h hp skips
      rw [headed, Bool.and_eq_true] at hp
      exact (ihl gapFirst before n h hp.1 skips).choice (ihr gapFirst before n h hp.2 skips)
  | optional body ih =>
      exact fun gapFirst before n h hp skips => (ih gapFirst before n h hp skips).optional
  | star body ih =>
      intro gapFirst before n h hp skips
      exact (Reader.AgreeBelow.plus (h.gapBelow skips) (h.gapReads skips)
        (ih gapFirst before n h hp skips)).optional
  | plus body ih =>
      exact fun gapFirst before n h hp skips =>
        .plus (h.gapBelow skips) (h.gapReads skips) (ih gapFirst before n h hp skips)
  | difference l r ihl ihr =>
      intro gapFirst before n h hp skips
      rw [headed, Bool.and_eq_true] at hp
      exact (ihl gapFirst before n h hp.1 skips).difference (ihr gapFirst before n h hp.2 skips)
  | exclusiveOr l r ihl ihr =>
      intro gapFirst before n h hp skips
      rw [headed, Bool.and_eq_true] at hp
      exact (ihl gapFirst before n h hp.1 skips).exclusiveOr (ihr gapFirst before n h hp.2 skips)
  | intersection l r ihl ihr =>
      intro gapFirst before n h hp skips
      rw [headed, Bool.and_eq_true] at hp
      exact (ihl gapFirst before n h hp.1 skips).intersection (ihr gapFirst before n h hp.2 skips)
  | list element separator ihe ihs =>
      intro gapFirst before n h hp skips
      rw [headed, Bool.and_eq_true, Bool.or_eq_true, Bool.and_eq_true, decide_eq_true_eq] at hp
      obtain ⟨he, hs⟩ := hp
      have hreads (q : Parser V ρ α) : (q.reader gap call run skips).Reads 0 :=
        (reader_reads h.gapReads h.callReads q skips).mono (Nat.zero_le _)
      refine (ihe gapFirst before n h he skips).seq (reader_reads h.gapReads h.callReads _ skips)
        (.iterate ?_)
      rcases hs with hread | ⟨hgap, hs⟩
      · have hgapBelow := h.gapBelow skips
        exact (hgapBelow.seq (h.gapReads skips) ((ihs.below h skips).seq (hreads separator)
          (hgapBelow.seq (h.gapReads skips) (ihe.below h skips)))).mono (by omega)
      · have hgapHere := h.gapHere hgap skips
        exact (hgapHere.seq (h.gapReads skips) ((ihs gapFirst before n h hs skips).seq
          (hreads separator) (hgapHere.seq (h.gapReads skips)
            (ihe gapFirst before n h he skips)))).mono (by omega)
  | grouping body ih => exact ih
  | token body ih => exact fun gapFirst before n h hp _ => ih gapFirst before n h hp false
  | expectation body ih =>
      exact fun gapFirst before n h hp skips => (ih gapFirst before n h hp skips).expect
  | action a body ih =>
      exact fun gapFirst before n h hp skips => (ih gapFirst before n h hp skips).action _
  | nonterminal rule instanceName args =>
      exact fun gapFirst before n h hp skips => .nonterminal (h.callHere rule hp skips) _ _

end

theorem Agreement.reader {reads : ρ → Nat} {gapFirst : Bool} {before : ρ → Bool} {n : Nat}
    {gap gap' : Bool → Reader V W} {call call' : Bool → ρ → Callee V W}
    (h : Agreement reads gapFirst before n gap gap' call call')
    (run : α → ActionContext V W → ActionContext V W) {p : Parser V ρ α}
    (hp : p.headed reads gapFirst before) (skips : Bool) :
    (p.reader gap call run skips).AgreeBelow (n + 1) (p.reader gap' call' run skips) :=
  agrees p gapFirst before n h hp skips

end Parser

/-! ### Levels that suffice -/

/-- Ranks of declared rules under which a rule that has not read anything yet only calls rules of
lower ranks. So none can come back to itself before it has read something. -/
structure Ranked (decls : List (RuleDecl V W)) (skipRule : Option String)
    (reads rank : String → Nat) (bound : Nat) : Prop where
  least : ∀ decl ∈ decls, reads decl.name ≤ decl.definition.least reads
  bounded : ∀ name, rank name < bound
  headed : ∀ decl ∈ decls, decl.definition.headed reads
    (skipRule.all fun skip => rank skip < rank decl.name) fun rule => rank rule < rank decl.name

namespace Ranked

variable {decls : List (RuleDecl V W)} {skipRule : Option String} {reads rank : String → Nat}
  {bound : Nat}

theorem callReads (h : Ranked decls skipRule reads rank bound) (levels : Nat) (skips : Bool)
    (name : String) : (declReader decls skipRule levels skips name).Reads (reads name) :=
  declReader_reads h.least skipRule levels skips name

/-- Calls that do the same wherever the ranks allow them are all that a tree of some rank needs. -/
theorem agreement (h : Ranked decls skipRule reads rank bound)
    {call call' : Bool → String → Callee V W}
    (hreads : ∀ skips rule, (call skips rule).Reads (reads rule)) (n : Nat) (name : String)
    (hcall : ∀ m rule, bound * m + rank rule < bound * n + rank name →
      ∀ skips args w u, w.length ≤ m → call skips rule args w u = call' skips rule args w u) :
    Parser.Agreement reads (skipRule.all fun skip => rank skip < rank name)
      (fun rule => rank rule < rank name) n (.gap skipRule call) (.gap skipRule call') call call' := by
  have hbelow (skips : Bool) (rule : String) (args : List V) (w : List Char) (u : W)
      (hw : w.length < n) : call skips rule args w u = call' skips rule args w u := by
    obtain ⟨m, rfl⟩ := Nat.exists_eq_add_one_of_ne_zero (Nat.ne_zero_of_lt hw)
    have hrank := h.bounded rule
    refine hcall m rule ?_ skips args w u (Nat.le_of_lt_succ hw)
    rw [Nat.mul_succ]
    omega
  have hhere (rule : String) (hrule : decide (rank rule < rank name) = true) (skips : Bool)
      (args : List V) (w : List Char) (u : W) (hw : w.length < n + 1) :
      call skips rule args w u = call' skips rule args w u :=
    hcall n rule (Nat.add_lt_add_left (of_decide_eq_true hrule) _) skips args w u
      (Nat.le_of_lt_succ hw)
  refine ⟨.gap (fun skips rule args w u rest v u' hhit => ?_) skipRule, hreads,
    fun skips => ?_, fun hfirst skips => ?_, hbelow, hhere⟩
  · have := hreads skips rule args w u rest v u' hhit
    omega
  · unfold Reader.gap
    split
    · exact (Reader.AgreeBelow.test (hbelow false _)).optional
    · exact .refl _
  · unfold Reader.gap
    split
    · exact (Reader.AgreeBelow.test (hhere _ hfirst false)).optional
    · exact .refl _

/-- Where enough activations may be nested it makes no difference how many. -/
theorem declReader_stable (h : Ranked decls skipRule reads rank bound) {levels levels' n : Nat}
    {name : String} (hlevels : bound * n + rank name < levels)
    (hlevels' : bound * n + rank name < levels') (skips : Bool) (args : List V) (w : List Char)
    (u : W) (hw : w.length ≤ n) : declReader decls skipRule levels skips name args w u =
      declReader decls skipRule levels' skips name args w u := by
  induction levels generalizing levels' n name skips args w u with
  | zero => exact absurd hlevels (Nat.not_lt_zero _)
  | succ levels ih =>
      obtain ⟨levels', rfl⟩ := Nat.exists_eq_add_one_of_ne_zero (Nat.ne_zero_of_lt hlevels')
      rw [declReader, declReader, calleeOf, calleeOf]
      cases hdecl : decls.find? (·.name == name) with
      | none => rfl
      | some decl =>
          have hname : decl.name = name := by simpa using List.find?_some hdecl
          have hheaded := h.headed decl (List.mem_of_find?_eq_some hdecl)
          rw [hname] at hheaded
          have hagree := h.agreement (h.callReads levels) n name fun m rule hlt skips args w u hw =>
            ih (Nat.lt_of_lt_of_le hlt (Nat.le_of_lt_succ hlevels))
              (Nat.lt_of_lt_of_le hlt (Nat.le_of_lt_succ hlevels')) skips args w u hw
          have htree := hagree.reader decl.perform hheaded skips
          dsimp only [activation]
          rw [htree w _ u (Nat.lt_succ_of_le hw)]

end Ranked

end AttrGrammar.Peg

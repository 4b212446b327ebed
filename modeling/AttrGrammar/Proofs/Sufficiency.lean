import AttrGrammar.Proofs.Nesting
import AttrGrammar.Proofs.Termination
import AttrGrammar.Proofs.Unwatched
import AttrGrammar.Proofs.WholeReading

/-! Fuel that suffices. Where rules are ranked, so that none comes back to itself before it has read
something, the rank and the text that is left bound how deeply activations can be nested. A reader
with levels for that never stops for lack of them, and so a parse without a limit on nesting does not
run out of fuel; under a limit none does anyway. -/

namespace AttrGrammar.Peg
open Text

variable {V W ρ α β μ ν : Type}

namespace Outcome

/-- Reading has not stopped for activations that are nested too deeply. -/
def Shallow : Outcome α μ W → Prop
  | stop why _ => why ≠ .tooDeep
  | _ => True

/-- The same outcome, with another reason in place of activations nested too deeply. -/
def mended : Outcome α μ W → Outcome α μ W
  | stop .tooDeep u => stop .faulty u
  | o => o

variable {o : Outcome α μ W}

theorem shallow_stop {why : Stop} (u : W) (hwhy : why ≠ .tooDeep) :
    (stop why u : Outcome α μ W).Shallow :=
  hwhy

theorem shallow_mended (o : Outcome α μ W) : o.mended.Shallow := by
  unfold mended
  split
  · exact shallow_stop _ (by decide)
  · next hdeep =>
    cases o with
    | stop why u => exact fun h => hdeep u (by rw [h])
    | _ => trivial

theorem Shallow.mended_eq (h : o.Shallow) : o.mended = o := by
  unfold mended
  split
  · exact (h rfl).elim
  · rfl

theorem Shallow.andThen {next : List Char → α → W → Outcome β μ W} (h : o.Shallow)
    (hnext : ∀ rest a u, o = .hit rest a u → (next rest a u).Shallow) :
    (o.andThen next).Shallow := by
  cases o with
  | hit rest a u => exact hnext rest a u rfl
  | miss m u => trivial
  | stop why u => exact h

theorem Shallow.orElse {other : μ → W → Outcome α ν W} (h : o.Shallow)
    (hother : ∀ m u, (other m u).Shallow) : (o.orElse other).Shallow := by
  cases o with
  | hit rest a u => trivial
  | miss m u => exact hother m u
  | stop why u => exact h

theorem Shallow.map {onHit : α → β} {onMiss : μ → ν} (h : o.Shallow) :
    (o.map onHit onMiss).Shallow := by
  cases o with
  | stop why u => exact h
  | _ => trivial

theorem Shallow.concluded {o : Outcome (Option V) Unit W} (h : o.Shallow) :
    o.concluded.1 ≠ .error .tooDeep := by
  unfold Outcome.concluded
  split
  · simp
  · simp
  · simp
  · exact fun heq => h (Except.error.inj heq)

end Outcome

/-- The reader never stops for activations that are nested too deeply. -/
def Reader.Shallow (x : Reader V W) : Prop := ∀ w f u, (x w f u).Shallow

/-- The same of a rule. -/
def Callee.Shallow (call : Callee V W) : Prop := ∀ args w u, (call args w u).Shallow

namespace Reader.Shallow

variable {x y gap round : Reader V W} {call : Callee V W}

theorem nothing : Shallow (nothing : Reader V W) := fun _ _ _ => trivial

theorem oneChar (accept : Char → Bool) : Shallow (oneChar accept : Reader V W) := by
  intro w f u
  unfold Reader.oneChar
  split
  · split <;> trivial
  · trivial

theorem atEnd : Shallow (atEnd : Reader V W) := by
  intro w f u
  unfold Reader.atEnd
  split <;> trivial

theorem literal (word : List Char) : Shallow (literal word : Reader V W) := by
  intro w f u
  unfold Reader.literal
  split <;> trivial

theorem seq (hx : Shallow x) (hy : Shallow y) : Shallow (x.seq y) :=
  fun w f u => (hx w f u).andThen fun rest f u _ => hy rest f u

theorem choice (hx : Shallow x) (hy : Shallow y) : Shallow (x.choice y) :=
  fun w f u => (hx w f u).orElse fun f u => hy w f u

theorem optional (hx : Shallow x) : Shallow (optional x) := hx.choice nothing

theorem expect (hx : Shallow x) : Shallow (expect x) :=
  hx.choice fun _ _ _ => Outcome.shallow_stop _ (by decide)

theorem keyword (word : List Char) (hgoesOn : Shallow x) : Shallow (keyword word x) := by
  refine fun w f u => (literal word w f u).andThen fun rest f u _ => ?_
  have h := hgoesOn rest f u
  split
  · trivial
  · trivial
  · next why u hstop =>
    rw [hstop] at h
    exact h

theorem keywordList (hx : Shallow x) (words : List String) : Shallow (keywordList x words) := by
  refine fun w f u => (hx w f u).andThen fun rest f u _ => ?_
  split <;> trivial

theorem difference (hx : Shallow x) (hy : Shallow y) : Shallow (difference x y) := by
  refine fun w f u => (hx w f u).andThen fun rest f u _ => ?_
  have h := hy w f u
  split
  · split <;> trivial
  · trivial
  · next why u hstop =>
    rw [hstop] at h
    exact h

theorem exclusiveOr (hx : Shallow x) (hy : Shallow y) : Shallow (exclusiveOr x y) := by
  intro w f u
  have h := hx w f u
  unfold Reader.exclusiveOr
  split
  · next rest f u _ =>
    have h' := hy w f u
    split
    · trivial
    · trivial
    · next why u hstop =>
      rw [hstop] at h'
      exact h'
  · exact hy w _ _
  · next why u hstop =>
    rw [hstop] at h
    exact h

theorem intersection (hx : Shallow x) (hy : Shallow y) : Shallow (intersection x y) := by
  refine fun w f u => (hx w f u).andThen fun rest f u _ => ?_
  refine (hy w f u).andThen fun rest' f u _ => ?_
  split <;> trivial

theorem progress (hx : Shallow x) : Shallow x.progress := by
  refine fun w f u => (hx w f u).andThen fun rest f u _ => ?_
  split <;> trivial

theorem iterate (hround : Shallow round) : Shallow (iterate round) := by
  intro w f u
  induction hlength : w.length using Nat.strongRecOn generalizing w f u with
  | ind n ih =>
      cases hrun : round w f u with
      | hit rest f' u' =>
          by_cases hlt : rest.length < w.length
          · rw [iterate_hit hrun hlt]
            exact ih _ (hlength ▸ hlt) rest f' u' rfl
          · rw [iterate_still hrun (Nat.not_lt.1 hlt)]
            trivial
      | miss f' u' =>
          rw [iterate_miss hrun]
          trivial
      | stop why u' =>
          have h := hround w f u
          rw [hrun] at h
          rw [iterate_stop hrun]
          exact h

theorem plus (hgap : Shallow gap) (hx : Shallow x) : Shallow (plus gap x) := by
  refine fun w f u => (hx w f u).andThen fun rest f u _ => ?_
  split
  · exact iterate (hgap.seq hx.progress) rest f u
  · trivial

theorem list (hgap : Shallow gap) (hx : Shallow x) (hy : Shallow y) : Shallow (list gap x y) :=
  hx.seq (iterate (hgap.seq (hy.seq (hgap.seq hx))))

theorem action (run : ActionContext V W → ActionContext V W) (hx : Shallow x) :
    Shallow (action run x) := by
  refine fun w f u => (hx w f u).andThen fun rest f u _ => ?_
  dsimp only
  split
  · exact Outcome.shallow_stop _ (by simp)
  · split <;> trivial

theorem nonterminal (hcall : call.Shallow) (instanceName : String) (args : List (Argument V)) :
    Shallow (nonterminal call instanceName args) := by
  intro w f u
  unfold Reader.nonterminal
  split
  · exact (hcall _ w u).map
  · exact Outcome.shallow_stop _ (by decide)

theorem test (hcall : call.Shallow) : Shallow (test call) := fun w _ u => (hcall [] w u).map

end Reader.Shallow

/-- If calls never stop for activations that are nested too deeply, no tree does. -/
theorem Parser.reader_shallow {gap : Bool → Reader V W} {call : Bool → ρ → Callee V W}
    {run : α → ActionContext V W → ActionContext V W} (hgap : ∀ skips, (gap skips).Shallow)
    (hcall : ∀ skips rule, (call skips rule).Shallow) (p : Parser V ρ α) (skips : Bool) :
    (p.reader gap call run skips).Shallow := by
  induction p generalizing skips with
  | empty => exact .nothing
  | anyChar | char _ | oneOf _ | set _ | range _ _ => exact .oneChar _
  | atEnd => exact .atEnd
  | literal word => exact .literal _
  | keyword word continuation =>
      cases continuation with
      | none => exact .keyword _ (.oneChar _)
      | some rule => exact .keyword _ (.test (hcall skips rule))
  | keywordList selector words ih => exact (ih skips).keywordList words
  | sequence l r ihl ihr => exact (ihl skips).seq ((hgap skips).seq (ihr skips))
  | alternative l r ihl ihr => exact (ihl skips).choice (ihr skips)
  | optional body ih => exact (ih skips).optional
  | star body ih => exact (Reader.Shallow.plus (hgap skips) (ih skips)).optional
  | plus body ih => exact .plus (hgap skips) (ih skips)
  | difference l r ihl ihr => exact (ihl skips).difference (ihr skips)
  | exclusiveOr l r ihl ihr => exact (ihl skips).exclusiveOr (ihr skips)
  | intersection l r ihl ihr => exact (ihl skips).intersection (ihr skips)
  | list element separator ihe ihs => exact .list (hgap skips) (ihe skips) (ihs skips)
  | grouping body ih => exact ih skips
  | token body ih => exact ih false
  | expectation body ih => exact (ih skips).expect
  | action a body ih => exact (ih skips).action _
  | nonterminal rule instanceName args => exact .nonterminal (hcall skips rule) _ _

theorem Reader.Shallow.gap {call : Bool → ρ → Callee V W}
    (hcall : ∀ skips rule, (call skips rule).Shallow) (skipRule : Option ρ) (skips : Bool) :
    (Reader.gap skipRule call skips).Shallow := by
  unfold Reader.gap
  split
  · exact (Reader.Shallow.test (hcall _ _)).optional
  · exact .nothing

theorem activation_shallow {locals inherited : List String} {hasValue : Bool} {tree : Reader V W}
    {args : List V} {w : List Char} {u : W}
    (h : (tree w ((Frame.ofLocals locals).bindInherited inherited args) u).Shallow) :
    (activation locals inherited hasValue tree args w u).Shallow := by
  unfold activation
  split
  · split
    · split
      · trivial
      · exact Outcome.shallow_stop _ (by decide)
    · trivial
  · trivial
  · next why u hstop =>
    rw [hstop] at h
    exact h

namespace Ranked

variable {decls : List (RuleDecl V W)} {skipRule : Option String} {reads rank : String → Nat}
  {bound levels n : Nat}

/-- Where there are levels for the rank of a rule and the text that is left, it does not stop for lack
of them. For its tree the calls are as good as calls that never do so. -/
theorem declReader_shallow (h : Ranked decls skipRule reads rank bound) {name : String}
    (hlevels : bound * n + rank name < levels) (skips : Bool) (args : List V) {w : List Char} (u : W)
    (hw : w.length ≤ n) : (declReader decls skipRule levels skips name args w u).Shallow := by
  induction levels generalizing n name skips args w u with
  | zero => exact absurd hlevels (Nat.not_lt_zero _)
  | succ levels ih =>
      rw [declReader, calleeOf]
      cases hdecl : decls.find? (·.name == name) with
      | none => exact Outcome.shallow_stop u (by decide)
      | some decl =>
          have hname : decl.name = name := by simpa using List.find?_some hdecl
          have hheaded := h.headed decl (List.mem_of_find?_eq_some hdecl)
          rw [hname] at hheaded
          let call := declReader decls skipRule levels
          let mended (skips : Bool) (rule : String) : Callee V W :=
            fun args w u => (call skips rule args w u).mended
          have hmended (skips : Bool) (rule : String) : (mended skips rule).Shallow :=
            fun _ _ _ => Outcome.shallow_mended _
          have hagree : Parser.Agreement reads _ _ n (.gap skipRule call) (.gap skipRule mended)
              call mended :=
            h.agreement (h.callReads levels) n name fun m rule hlt skips args w u hw =>
              (ih (Nat.lt_of_lt_of_le hlt (Nat.le_of_lt_succ hlevels)) skips args u
                hw).mended_eq.symm
          refine activation_shallow ?_
          rw [hagree.reader decl.perform hheaded skips w _ u (Nat.lt_succ_of_le hw)]
          exact Parser.reader_shallow (.gap hmended skipRule) hmended _ skips _ _ _

/-- Reading a whole text does not stop for lack of levels where these are enough for its length. -/
theorem whole_shallow (h : Ranked decls skipRule reads rank bound) {w : List Char}
    (hlevels : bound * (w.length + 1) ≤ levels) (name : String) (args : List V) (u : W) :
    let call := declReader decls skipRule levels
    (Reader.whole (.gap skipRule call true) (call true name) args w u).Shallow := by
  intro call
  have hcall (skips : Bool) (name : String) (args : List V) (w' : List Char) (u : W)
      (hw' : w'.length ≤ w.length) : (call skips name args w' u).Shallow := by
    have hrank := h.bounded name
    rw [Nat.mul_succ] at hlevels
    exact h.declReader_shallow (by omega) skips args u hw'
  have hgap (w' : List Char) (f : Frame V) (u : W) (hw' : w'.length ≤ w.length) :
      (Reader.gap skipRule call true w' f u).Shallow := by
    cases skipRule with
    | none => trivial
    | some rule => exact (hcall false rule [] w' u hw').map.orElse fun _ _ => trivial
  have hreads (skips : Bool) (name : String) : (call skips name).Reads 0 :=
    fun args w u rest v u' hhit => Nat.le_of_add_right_le
      (h.callReads levels skips name args w u rest v u' hhit)
  -- A hit of the first gap or of the rule leaves no more text than there was.
  refine (hgap w _ u (Nat.le_refl _)).map.andThen fun rest _ u' hlead => ?_
  have hrest : rest.length ≤ w.length := by
    obtain ⟨f, hhit, -⟩ := Outcome.map_eq_hit.1 hlead
    exact Reader.Reads.gap hreads skipRule true _ _ _ _ _ _ hhit
  refine (hcall true name args rest u' hrest).andThen fun rest' v u'' hhit => ?_
  have hrest' := hreads true name _ _ _ _ _ _ hhit
  exact (hgap rest' _ u'' (by omega)).map

end Ranked

end AttrGrammar.Peg

namespace AttrGrammar.Parse
open Text Scan Peg

variable {V W : Type} {d : Domain V W} {g : Grammar} {decls : List (RuleDecl V W)}
  {skip : Option String} {start : RuleDecl V W}

/-- A parse does not run out of fuel if there is fuel for the ranks of all rules and the whole text, or
a limit on nesting. -/
theorem Declares.parse_finishes (h : Declares d g decls skip start) {reads rank : String → Nat}
    {bound : Nat} (hranked : Ranked decls skip reads rank bound) (text : Buffer)
    (hfuel : bound * (text.size + 1) ≤ (d.rules.size + 1) * (text.size + 2) + UInt32.size)
    {options : Options V} (hargs : options.args.length = start.inherited.length) (world : W) :
    (parse d g text options world).outcome ≠ .error .outOfFuel := by
  rcases Nat.eq_zero_or_pos d.config.maxDepth with hlimit | hlimit
  · intro hexhausted
    have huntraced : (parse d g text { options with log := none } world).outcome =
        .error .outOfFuel := parseWithin_unwatched (by simp) hexhausted
    by_cases hshort : d.config.maxInputLength = 0 ∨ text.size ≤ d.config.maxInputLength
    · have hdenotes := parse_denotes h text { options with log := none } rfl hargs hshort world
      have hlevels : bound * (text.toList.length + 1) ≤ levelsFor d text.size := by
        rw [Array.length_toList, levelsFor, if_pos hlimit, fuelFor, if_neg (by omega)]
        exact hfuel
      have hreason := congrArg Prod.fst hdenotes
      rw [huntraced] at hreason
      exact (hranked.whole_shallow hlevels start.name options.args world).concluded hreason
    · rw [(parse_tooLong text hshort _ world).1] at huntraced
      cases huntraced
  · have hroom : d.config.maxDepth < fuelFor d text.size := by
      rw [fuelFor, if_pos hlimit]
      exact Nat.lt_succ_self _
    exact parseWithin_finishes hlimit hroom g text options world

end AttrGrammar.Parse

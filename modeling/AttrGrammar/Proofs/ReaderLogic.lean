import AttrGrammar.Proofs.Linking
import AttrGrammar.Proofs.Reader

/-! Conditions before and after reading. A reader is specified by a condition on the frame and the
world that it starts with, and by one condition for each way to end: after a hit, after a miss, and,
on the world alone, where it stops. What is done before a miss is not taken back, and so the condition
for a miss says as much as the one for a hit. Repetitions take an invariant. What all calls and all
actions of a tree keep, the tree keeps; so a rule that reaches only actions which leave the world
alone leaves it alone itself. -/

namespace AttrGrammar.Peg
open Text

variable {V W ρ α μ β : Type}

/-- The condition of the way in which the outcome ends holds. -/
def Outcome.Satisfies (o : Outcome α μ W) (onHit : α → W → Prop) (onMiss : μ → W → Prop)
    (onStop : W → Prop) : Prop :=
  match o with
  | .hit _ a u => onHit a u
  | .miss m u => onMiss m u
  | .stop _ u => onStop u

namespace Outcome.Satisfies

variable {o : Outcome α μ W} {onHit onHit' : α → W → Prop} {onMiss onMiss' : μ → W → Prop}
  {onStop onStop' : W → Prop}

theorem mono (h : o.Satisfies onHit onMiss onStop) (hhit : ∀ a u, onHit a u → onHit' a u)
    (hmiss : ∀ m u, onMiss m u → onMiss' m u) (hstop : ∀ u, onStop u → onStop' u) :
    o.Satisfies onHit' onMiss' onStop' := by
  cases o with
  | hit rest a u => exact hhit a u h
  | miss m u => exact hmiss m u h
  | stop why u => exact hstop u h

theorem andThen {onNext : β → W → Prop} {next : List Char → α → W → Outcome β μ W}
    (h : o.Satisfies onHit onMiss onStop)
    (hnext : ∀ rest a u, onHit a u → (next rest a u).Satisfies onNext onMiss onStop) :
    (o.andThen next).Satisfies onNext onMiss onStop := by
  cases o with
  | hit rest a u => exact hnext rest a u h
  | miss m u => exact h
  | stop why u => exact h

theorem orElse {ν : Type} {onOther : ν → W → Prop} {other : μ → W → Outcome α ν W}
    (h : o.Satisfies onHit onMiss onStop)
    (hother : ∀ m u, onMiss m u → (other m u).Satisfies onHit onOther onStop) :
    (o.orElse other).Satisfies onHit onOther onStop := by
  cases o with
  | hit rest a u => exact h
  | miss m u => exact hother m u h
  | stop why u => exact h

end Outcome.Satisfies

/-- A condition on the frame and the world. -/
abbrev Condition (V W : Type) := Frame V → W → Prop

/-- Wherever the first condition holds, the one of the way in which the reader ends holds then. -/
def Reader.Satisfies (x : Reader V W) (before onHit onMiss : Condition V W) (onStop : W → Prop) :
    Prop :=
  ∀ w f u, before f u → (x w f u).Satisfies onHit onMiss onStop

/-- The condition holds before and after. -/
abbrev Reader.Keeps (x : Reader V W) (I : Condition V W) (onStop : W → Prop) : Prop :=
  x.Satisfies I I I onStop

/-- The same for what an action leaves behind: it can also make a hit a miss, and it stops reading if
it raises. -/
def ActionContext.Satisfies (done : ActionContext V W) (onHit onMiss : Condition V W)
    (onStop : W → Prop) : Prop :=
  match done.error with
  | some _ => onStop done.world
  | none => if done.pass then onHit done.frame done.world else onMiss done.frame done.world

namespace ActionContext.Satisfies

variable {ctx : ActionContext V W} {onHit onMiss : Condition V W} {onStop : W → Prop}

theorem passed (herror : ctx.error = none) (hpass : ctx.pass = true)
    (h : onHit ctx.frame ctx.world) : ctx.Satisfies onHit onMiss onStop := by
  rw [ActionContext.Satisfies, herror]
  exact (if_pos hpass).mpr h

theorem rejected (herror : ctx.error = none) (h : onMiss ctx.frame ctx.world) :
    ctx.reject.Satisfies onHit onMiss onStop := by
  rw [ActionContext.Satisfies, show ctx.reject.error = none from herror]
  exact h

theorem raised {reason : String} (h : onStop ctx.world) :
    (ctx.raise reason).Satisfies onHit onMiss onStop := h

end ActionContext.Satisfies

/-- Wherever the first condition holds, the one of what the action leaves behind holds then. -/
def Acts (run : ActionContext V W → ActionContext V W) (before onHit onMiss : Condition V W)
    (onStop : W → Prop) : Prop :=
  ∀ f text u, before f u → (run (.of f text u)).Satisfies onHit onMiss onStop

namespace Reader

variable {x y round gap element separator goesOn selector : Reader V W} {P P' Q Q' R R' I : Condition V W}
  {L L' : W → Prop}

namespace Satisfies

theorem mono (h : x.Satisfies P Q R L) (hbefore : ∀ f u, P' f u → P f u)
    (hhit : ∀ f u, Q f u → Q' f u) (hmiss : ∀ f u, R f u → R' f u) (hstop : ∀ u, L u → L' u) :
    x.Satisfies P' Q' R' L' :=
  fun w f u hf => (h w f u (hbefore f u hf)).mono hhit hmiss hstop

theorem nothing : (nothing : Reader V W).Satisfies P P R L := fun _ _ _ hf => hf

theorem oneChar (accept : Char → Bool) : (oneChar accept : Reader V W).Satisfies P P P L := by
  intro w f u hf
  unfold Reader.oneChar
  split
  · split <;> exact hf
  · exact hf

theorem literal (word : List Char) : (literal word : Reader V W).Satisfies P P P L := by
  intro w f u hf
  unfold Reader.literal
  split <;> exact hf

theorem seq (hx : x.Satisfies P Q R L) (hy : y.Satisfies Q Q' R L) :
    (x.seq y).Satisfies P Q' R L :=
  fun w f u hf => (hx w f u hf).andThen fun rest f u hf => hy rest f u hf

theorem choice (hx : x.Satisfies P Q R L) (hy : y.Satisfies R Q R' L) :
    (x.choice y).Satisfies P Q R' L :=
  fun w f u hf => (hx w f u hf).orElse fun f u hf => hy w f u hf

theorem optional (hx : x.Satisfies P Q Q L) : (optional x).Satisfies P Q R L :=
  hx.choice nothing

/-- What is required is never missing. -/
theorem expect (hx : x.Satisfies P Q R L) (hstop : ∀ f u, R f u → L u) :
    (expect x).Satisfies P Q R' L :=
  hx.choice fun _ f u hf => hstop f u hf

theorem action {run : ActionContext V W → ActionContext V W} (hx : x.Satisfies P Q R L)
    (hrun : Acts run Q Q' R L) : (action run x).Satisfies P Q' R L := by
  intro w f u hf
  refine (hx w f u hf).andThen fun rest f u hf => ?_
  have hacts := hrun f (consumed w rest) u hf
  unfold ActionContext.Satisfies at hacts
  dsimp only
  split
  · next h =>
    rw [h] at hacts
    exact hacts
  · next h =>
    rw [h] at hacts
    dsimp only at hacts
    split
    · next hpass =>
      rw [if_pos hpass] at hacts
      exact hacts
    · next hpass =>
      rw [if_neg hpass] at hacts
      exact hacts

theorem nonterminal {call : Callee V W} {instanceName : String} {args : List (Argument V)}
    (hcall : ∀ values w f u, P f u → (call values w u).Satisfies
      (fun v => Q (v.elim f (f.setInstance instanceName))) (fun _ => R f) L)
    (hstop : ∀ f u, P f u → L u) :
    (nonterminal call instanceName args).Satisfies P Q R L := by
  intro w f u hf
  unfold Reader.nonterminal
  split
  · next values _ =>
    have h := hcall values w f u hf
    revert h
    cases call values w u <;> exact id
  · exact hstop f u hf

end Satisfies

namespace Keeps

/-- However many rounds there are, they keep what each one keeps. -/
theorem iterate (hround : round.Keeps I L) (w : List Char) (f : Frame V) (u : W) (hf : I f u) :
    (iterate round w f u).Satisfies I (fun _ _ => False) L := by
  have h := hround w f u hf
  cases hresult : round w f u with
  | hit rest f' u' =>
      rw [hresult] at h
      by_cases hlt : rest.length < w.length
      · rw [iterate_hit hresult hlt]
        exact iterate hround rest f' u' h
      · rw [iterate_still hresult (Nat.not_lt.1 hlt)]
        exact h
  | miss f' u' =>
      rw [hresult] at h
      rw [iterate_miss hresult]
      exact h
  | stop why u' =>
      rw [hresult] at h
      rw [iterate_stop hresult]
      exact h
  termination_by w.length

theorem progress (hx : x.Keeps I L) : (progress x).Keeps I L :=
  fun w f u hf => (hx w f u hf).andThen fun rest f u hf => by
    split <;> exact hf

theorem plus (hgap : gap.Keeps I L) (hx : x.Keeps I L) : (plus gap x).Keeps I L := by
  refine fun w f u hf => (hx w f u hf).andThen fun rest f u hf => ?_
  split
  · exact (iterate (hgap.seq (progress hx)) rest f u hf).mono (fun _ _ h => h)
      (fun _ _ h => h.elim) fun _ h => h
  · exact hf

/-- A repetition never misses. -/
theorem star (hgap : gap.Keeps I L) (hx : x.Keeps I L) : (star gap x).Satisfies I I R L :=
  (plus hgap hx).optional

theorem list (hgap : gap.Keeps I L) (helement : element.Keeps I L)
    (hseparator : separator.Keeps I L) : (list gap element separator).Keeps I L :=
  helement.seq fun w f u hf =>
    (iterate (hgap.seq (hseparator.seq (hgap.seq helement))) w f u hf).mono (fun _ _ h => h)
      (fun _ _ h => h.elim) fun _ h => h

theorem keyword (word : List Char) (hgoesOn : goesOn.Keeps I L) :
    (keyword word goesOn).Keeps I L := by
  refine fun w f u hf => (Satisfies.literal word w f u hf).andThen fun rest f u hf => ?_
  have h := hgoesOn rest f u hf
  revert h
  cases goesOn rest f u <;> exact id

theorem keywordList (hselector : selector.Keeps I L) (words : List String) :
    (keywordList selector words).Keeps I L := by
  refine fun w f u hf => (hselector w f u hf).andThen fun rest f u hf => ?_
  split <;> exact hf

theorem difference (hx : x.Keeps I L) (hy : y.Keeps I L) : (difference x y).Keeps I L := by
  refine fun w f u hf => (hx w f u hf).andThen fun rest f u hf => ?_
  have h := hy w f u hf
  revert h
  cases y w f u with
  | hit rest' f' u' =>
      intro h
      dsimp only
      split <;> exact h
  | _ => exact id

theorem exclusiveOr (hx : x.Keeps I L) (hy : y.Keeps I L) : (exclusiveOr x y).Keeps I L := by
  intro w f u hf
  have h := hx w f u hf
  unfold Reader.exclusiveOr
  revert h
  cases x w f u with
  | hit rest f' u' =>
      intro h
      have h' := hy w f' u' h
      dsimp only
      revert h'
      cases y w f' u' <;> exact id
  | miss f' u' => exact hy w f' u'
  | stop why u' => exact id

theorem intersection (hx : x.Keeps I L) (hy : y.Keeps I L) : (intersection x y).Keeps I L := by
  refine fun w f u hf => (hx w f u hf).andThen fun rest f u hf => ?_
  refine (hy w f u hf).andThen fun rest' f u hf => ?_
  split <;> exact hf

end Keeps

end Reader

/-! ### Trees and rules -/

/-- What the gaps, the calls and the actions of a tree keep, the tree keeps. -/
theorem Parser.reader_keeps {I : Condition V W} {L : W → Prop} {ref : ρ → Nat → Prop}
    {act : α → Prop} {gap : Bool → Reader V W} {call : Bool → ρ → Callee V W}
    {run : α → ActionContext V W → ActionContext V W} (hstop : ∀ f u, I f u → L u)
    (hgap : ∀ skips, (gap skips).Keeps I L)
    (htest : ∀ skips rule, ref rule 0 → (Reader.test (call skips rule)).Keeps I L)
    (hcall : ∀ skips rule instanceName args, ref rule args.length →
      (Reader.nonterminal (call skips rule) instanceName args).Keeps I L)
    (hact : ∀ a, act a → Acts (run a) I I I L) {p : Parser V ρ α} (hp : p.Every ref act)
    (skips : Bool) : (p.reader gap call run skips).Keeps I L := by
  induction p generalizing skips with
  | empty => exact .nothing
  | anyChar => exact .oneChar _
  | atEnd =>
      intro w f u hf
      cases w <;> exact hf
  | char c => exact .oneChar _
  | literal text => exact .literal _
  | oneOf cls => exact .oneChar _
  | set s => exact .oneChar _
  | range first last => exact .oneChar _
  | keyword text continuation =>
      cases continuation with
      | none => exact Reader.Keeps.keyword _ (.oneChar _)
      | some rule => exact Reader.Keeps.keyword _ (htest skips rule hp)
  | keywordList selector words ih => exact Reader.Keeps.keywordList (ih hp skips) words
  | sequence l r ihl ihr => exact (ihl hp.1 skips).seq ((hgap skips).seq (ihr hp.2 skips))
  | alternative l r ihl ihr => exact (ihl hp.1 skips).choice (ihr hp.2 skips)
  | optional body ih => exact (ih hp skips).optional
  | star body ih => exact Reader.Keeps.star (hgap skips) (ih hp skips)
  | plus body ih => exact Reader.Keeps.plus (hgap skips) (ih hp skips)
  | difference l r ihl ihr => exact Reader.Keeps.difference (ihl hp.1 skips) (ihr hp.2 skips)
  | exclusiveOr l r ihl ihr => exact Reader.Keeps.exclusiveOr (ihl hp.1 skips) (ihr hp.2 skips)
  | intersection l r ihl ihr => exact Reader.Keeps.intersection (ihl hp.1 skips) (ihr hp.2 skips)
  | list element separator ihe ihs =>
      exact Reader.Keeps.list (hgap skips) (ihe hp.1 skips) (ihs hp.2 skips)
  | grouping body ih => exact ih hp skips
  | token body ih => exact ih hp false
  | expectation body ih => exact (ih hp skips).expect hstop
  | action a body ih => exact (ih hp.2 skips).action (hact a hp.1)
  | nonterminal rule instanceName args => exact hcall skips rule instanceName args hp

/-- A rule does to the world what its tree does, from a frame of its own. -/
theorem activation_satisfies {locals inherited : List String} {hasValue : Bool}
    {tree : Reader V W} {P Q R : Condition V W} {L : W → Prop} (h : tree.Satisfies P Q R L)
    (hstop : ∀ f u, Q f u → L u) (args : List V) {u : W}
    (hbefore : P ((Frame.ofLocals locals).bindInherited inherited args) u) (w : List Char) :
    (activation locals inherited hasValue tree args w u).Satisfies
      (fun _ u' => ∃ f, Q f u') (fun _ u' => ∃ f, R f u') L := by
  have htree := h w _ u hbefore
  unfold activation
  revert htree
  cases tree w ((Frame.ofLocals locals).bindInherited inherited args) u with
  | hit rest f u' =>
      intro htree
      dsimp only
      split
      · split
        · exact ⟨f, htree⟩
        · exact hstop f u' htree
      · exact ⟨f, htree⟩
  | miss f u' => exact fun htree => ⟨f, htree⟩
  | stop why u' => exact id

/-- The action leaves the world as it is. -/
def Quiet (run : ActionContext V W → ActionContext V W) : Prop := ∀ ctx, (run ctx).world = ctx.world

/-- If all actions of a rule are quiet, so is whatever is done under a name. -/
theorem quiet_perform {decl : RuleDecl V W} (h : ∀ a ∈ decl.actions, Quiet a.run) (name : String) :
    Quiet (decl.perform name) := by
  unfold RuleDecl.perform
  cases hfind : decl.actions.find? (·.name == name) with
  | none => exact fun _ => rfl
  | some a => exact h a (List.mem_of_find?_eq_some hfind)

/-- The outcome comes with the world that was there before. -/
abbrev Outcome.Leaves (o : Outcome α μ W) (u : W) : Prop :=
  o.Satisfies (fun _ u' => u' = u) (fun _ u' => u' = u) (· = u)

/-- A rule that, on whatever way, reaches only quiet actions leaves the world as it is. -/
theorem declReader_leaves {decls : List (RuleDecl V W)} {skipRule : Option String}
    (quiet : String → Prop) (hskip : ∀ name ∈ skipRule, quiet name)
    (hquiet : ∀ name decl, quiet name → decls.find? (·.name == name) = some decl →
      decl.definition.Every (fun rule _ => quiet rule) fun name => Quiet (decl.perform name))
    (levels : Nat) (skips : Bool) (name : String) (hname : quiet name) (args : List V)
    (w : List Char) (u : W) : (declReader decls skipRule levels skips name args w u).Leaves u := by
  induction levels generalizing skips name args w u with
  | zero => rfl
  | succ levels ih =>
      have htest (skips : Bool) (rule : String) (hrule : quiet rule) :
          (Reader.test (declReader decls skipRule levels skips rule)).Keeps
            (fun _ u' => u' = u) (· = u) := by
        intro w f v hv
        have h := ih skips rule hrule [] w u
        rw [hv]
        unfold Reader.test
        revert h
        cases declReader decls skipRule levels skips rule [] w u <;> exact id
      have htree (decl : RuleDecl V W)
          (hdecl : decls.find? (·.name == name) = some decl) :
          (decl.definition.reader (.gap skipRule (declReader decls skipRule levels))
            (declReader decls skipRule levels) decl.perform skips).Keeps
              (fun _ u' => u' = u) (· = u) := by
        refine Parser.reader_keeps (I := fun _ u' => u' = u) (L := (· = u)) (fun _ _ h => h)
          (fun skips => ?_) htest
          (fun skips rule instanceName args hrule => .nonterminal ?_ fun _ _ h => h)
          (fun a ha => ?_) (hquiet name decl hname hdecl) skips
        · unfold Reader.gap
          split
          · next rule => exact (htest false rule (hskip rule rfl)).optional
          · exact .nothing
        · intro values w f v hv
          rw [hv]
          exact ih skips rule hrule values w u
        · intro f text v hv
          unfold ActionContext.Satisfies
          rw [ha]
          split
          · exact hv
          · split <;> exact hv
      show (calleeOf _ _ _ _ _ _ _ _).Leaves u
      unfold calleeOf
      cases hdecl : decls.find? (·.name == name) with
      | some decl =>
          exact (activation_satisfies (htree decl hdecl) (fun _ _ h => h) args rfl w).mono
            (fun _ _ ⟨_, h⟩ => h) (fun _ _ ⟨_, h⟩ => h) fun _ h => h
      | none => rfl

end AttrGrammar.Peg

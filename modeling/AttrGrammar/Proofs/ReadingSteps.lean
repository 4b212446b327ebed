import Mathlib
import AttrGrammar.Proofs.Reader

/-! Reading a given text step by step. What a reader does follows from what its parts do on the text,
frame and world that they meet; a repetition does as many rounds as hit and advance, and ends where
the next one misses. Runs of characters are read up to the first one that does not belong to them. -/

namespace AttrGrammar.Peg

/-- A value that a call left is taken away again. -/
theorem Frame.takeInstance_setInstance {V : Type} {f : Frame V} (h : f.instances = [])
    (name : String) (v : V) : (f.setInstance name v).takeInstance name = (some v, f) := by
  obtain ⟨value, inherited, locals, instances⟩ := f
  cases h
  simp [takeInstance, setInstance, instance?, Entries.insert, Entries.removeSwap, List.lookup,
    List.findIdx?_cons]

namespace Reader
open Text

variable {V W ρ : Type} {x y gap : Reader V W} {w rest : List Char} {f f' : Frame V} {u u' : W}

/-! ### Single steps -/

theorem seq_hit (h : x w f u = .hit rest f' u') : x.seq y w f u = y rest f' u' := by
  rw [seq, h, Outcome.andThen_hit]

theorem seq_miss (h : x w f u = .miss f' u') : x.seq y w f u = .miss f' u' := by
  rw [seq, h, Outcome.andThen_miss]

theorem seq_stop {why : Stop} (h : x w f u = .stop why u') : x.seq y w f u = .stop why u' := by
  rw [seq, h, Outcome.andThen_stop]

theorem choice_hit (h : x w f u = .hit rest f' u') : x.choice y w f u = .hit rest f' u' := by
  rw [choice, h, Outcome.orElse_hit]

/-- The first part changes nothing, so the second one does what it does. -/
theorem choice_right {o : Outcome (Frame V) (Frame V) W} (hx : x w f u = .miss f u)
    (hy : y w f u = o) : x.choice y w f u = o := by
  rw [choice, hx, Outcome.orElse_miss, hy]

theorem optional_hit (h : x w f u = .hit rest f' u') : optional x w f u = .hit rest f' u' :=
  choice_hit h

theorem optional_miss (h : x w f u = .miss f' u') : optional x w f u = .hit w f' u' := by
  rw [optional, choice, h]
  rfl

theorem expect_hit (h : x w f u = .hit rest f' u') : expect x w f u = .hit rest f' u' :=
  choice_hit h

/-- An action that neither raises nor rejects. -/
theorem action_consumed {run : ActionContext V W → ActionContext V W} {text : List Char}
    {f'' : Frame V} {u'' : W} (h : x w f u = .hit rest f' u')
    (hrun : run (.of f' (consumed w rest) u') = .of f'' text u'') :
    action run x w f u = .hit rest f'' u'' := by
  rw [action, h, Outcome.andThen_hit, hrun]
  rfl

theorem action_hit {run : ActionContext V W → ActionContext V W} {front text : List Char}
    {f'' : Frame V} {u'' : W} (h : x (front ++ rest) f u = .hit rest f' u')
    (hrun : run (.of f' front u') = .of f'' text u'') :
    action run x (front ++ rest) f u = .hit rest f'' u'' :=
  action_consumed h (by rwa [consumed_append])

/-- An action that has no regard to the text either. -/
theorem action_any {run : ActionContext V W → ActionContext V W} {f'' : Frame V} {u'' : W}
    (h : x w f u = .hit rest f' u')
    (hrun : ∀ text, run (.of f' text u') = .of f'' text u'') :
    action run x w f u = .hit rest f'' u'' := by
  rw [action, h, Outcome.andThen_hit, hrun]
  rfl

theorem action_miss {run : ActionContext V W → ActionContext V W} (h : x w f u = .miss f' u') :
    action run x w f u = .miss f' u' := by
  rw [action, h, Outcome.andThen_miss]

theorem action_stop {run : ActionContext V W → ActionContext V W} {why : Stop}
    (h : x w f u = .stop why u') : action run x w f u = .stop why u' := by
  rw [action, h, Outcome.andThen_stop]

theorem difference_hit (hx : x w f u = .hit rest f' u') {f'' : Frame V} {u'' : W}
    (hy : y w f' u' = .miss f'' u'') : difference x y w f u = .hit rest f'' u'' := by
  rw [difference, hx, Outcome.andThen_hit, hy]

theorem difference_miss (hx : x w f u = .hit rest f' u') {rest' : List Char} {f'' : Frame V} {u'' : W}
    (hy : y w f' u' = .hit rest' f'' u'') (hle : rest'.length ≤ rest.length) :
    difference x y w f u = .miss f'' u'' := by
  rw [difference, hx, Outcome.andThen_hit, hy]
  exact if_pos hle

theorem progress_hit (h : x w f u = .hit rest f' u') (hlt : rest.length < w.length) :
    progress x w f u = .hit rest f' u' := by
  rw [progress, h, Outcome.andThen_hit, if_pos hlt]

theorem progress_miss (h : x w f u = .miss f' u') : progress x w f u = .miss f' u' := by
  rw [progress, h, Outcome.andThen_miss]

@[simp]
theorem oneChar_cons (accept : Char → Bool) (c : Char) (w : List Char) (f : Frame V) (u : W) :
    oneChar accept (c :: w) f u = if accept c then .hit w f u else .miss f u := rfl

@[simp]
theorem oneChar_nil (accept : Char → Bool) (f : Frame V) (u : W) :
    oneChar accept [] f u = .miss f u := rfl

theorem char_hit (c : Char) (rest : List Char) (f : Frame V) (u : W) :
    oneChar (· == c) (c :: rest) f u = .hit rest f u := by
  rw [oneChar_cons, beq_self_eq_true, if_pos rfl]

/-- A character of the kind does not stand ahead. -/
theorem oneChar_miss {accept : Char → Bool} (h : ∀ c ∈ w.head?, accept c = false) (f : Frame V)
    (u : W) : oneChar accept w f u = .miss f u := by
  cases w with
  | nil => rfl
  | cons c w =>
      rw [oneChar_cons, h c (by simp)]
      rfl

theorem literal_hit (word rest : List Char) (f : Frame V) (u : W) :
    literal word (word ++ rest) f u = .hit rest f u := by
  rw [literal, if_pos (List.prefix_append word rest), List.drop_left]

/-- Of two kinds of characters the first one counts where both fit; it makes no difference. -/
theorem choice_oneChar (accept accept' : Char → Bool) :
    (oneChar accept : Reader V W).choice (oneChar accept') = oneChar fun c => accept c || accept' c := by
  funext w f u
  cases w with
  | nil => rfl
  | cons c w =>
      simp only [choice, oneChar_cons]
      cases accept c <;> simp

/-- A kind of characters without those of another kind. -/
theorem difference_oneChar (accept accept' : Char → Bool) :
    (oneChar accept : Reader V W).difference (oneChar accept') =
      oneChar fun c => accept c && !accept' c := by
  funext w f u
  cases w with
  | nil => rfl
  | cons c w =>
      simp only [difference, oneChar_cons]
      cases accept c <;> cases accept' c <;> simp

theorem literal_miss {word : List Char} (h : ¬ word <+: w) (f : Frame V) (u : W) :
    literal word w f u = .miss f u := if_neg h

/-- A word that does not go on. -/
theorem keyword_hit {word : List Char} {goesOn : Reader V W} (h : goesOn rest f u = .miss f' u') :
    keyword word goesOn (word ++ rest) f u = .hit rest f' u' := by
  rw [keyword, literal_hit, Outcome.andThen_hit, h]

theorem keyword_miss {word rest' : List Char} {goesOn : Reader V W}
    (h : goesOn rest f u = .hit rest' f' u') :
    keyword word goesOn (word ++ rest) f u = .miss f' u' := by
  rw [keyword, literal_hit, Outcome.andThen_hit, h]

/-! ### Calls -/

variable {call : Callee V W} {instanceName : String} {args : List (Argument V)} {values : List V}

theorem nonterminal_hit {v : Option V} (hargs : args.mapM (· f) = some values)
    (h : call values w u = .hit rest v u') :
    nonterminal call instanceName args w f u =
      .hit rest (v.elim f (f.setInstance instanceName)) u' := by
  rw [nonterminal, hargs]
  dsimp only
  rw [h, Outcome.map_hit]

theorem nonterminal_miss (hargs : args.mapM (· f) = some values)
    (h : call values w u = .miss () u') :
    nonterminal call instanceName args w f u = .miss f u' := by
  rw [nonterminal, hargs]
  dsimp only
  rw [h, Outcome.map_miss]

section

variable {locals inherited : List String} {tree : Reader V W}

theorem activation_hit
    (h : tree w ((Frame.ofLocals locals).bindInherited inherited values) u = .hit rest f' u') :
    activation locals inherited false tree values w u = .hit rest none u' := by
  rw [activation, h]
  rfl

theorem activation_value {v : V}
    (h : tree w ((Frame.ofLocals locals).bindInherited inherited values) u = .hit rest f' u')
    (hv : f'.value = some v) :
    activation locals inherited true tree values w u = .hit rest (some v) u' := by
  rw [activation, h]
  dsimp only
  rw [if_pos rfl, hv]

theorem activation_miss {hasValue : Bool}
    (h : tree w ((Frame.ofLocals locals).bindInherited inherited values) u = .miss f' u') :
    activation locals inherited hasValue tree values w u = .miss () u' := by
  rw [activation, h]

end

/-! ### Repetitions -/

theorem plus_miss (h : x w f u = .miss f' u') : plus gap x w f u = .miss f' u' := by
  rw [plus, h, Outcome.andThen_miss]

theorem star_miss (h : x w f u = .miss f' u') : star gap x w f u = .hit w f' u' :=
  optional_miss (plus_miss h)

/-- One round, where another one would miss. -/
theorem star_once {f'' : Frame V} {u'' : W} (h : x w f u = .hit rest f' u')
    (hlt : rest.length < w.length) (hend : gap.seq x.progress rest f' u' = .miss f'' u'') :
    star gap x w f u = .hit rest f'' u'' := by
  refine optional_hit ?_
  rw [plus, h, Outcome.andThen_hit, if_pos hlt]
  exact iterate_miss hend

/-- A round that reads nothing ends a repetition anyway. -/
theorem iterate_progress (x : Reader V W) (w : List Char) (f : Frame V) (u : W) :
    iterate x.progress w f u = iterate x w f u := by
  cases hx : x w f u with
  | hit rest f' u' =>
      by_cases hlt : rest.length < w.length
      · rw [iterate_hit hx hlt, iterate_hit (progress_hit hx hlt) hlt]
        exact iterate_progress x rest f' u'
      · have hstill : x.progress w f u = .miss f' u' := by
          rw [progress, hx, Outcome.andThen_hit, if_neg hlt]
        rw [iterate_still hx (Nat.not_lt.1 hlt), iterate_miss hstill]
  | miss f' u' => rw [iterate_miss hx, iterate_miss (progress_miss hx)]
  | stop why u' =>
      have hstop : x.progress w f u = .stop why u' := by
        rw [progress, hx, Outcome.andThen_stop]
      rw [iterate_stop hx, iterate_stop hstop]
  termination_by w.length

/-- However few rounds there are, a repetition does not miss. -/
theorem iterate_orElse (x : Reader V W) (w : List Char) (f : Frame V) (u : W)
    (other : Frame V → W → Outcome (Frame V) (Frame V) W) :
    (iterate x w f u).orElse other = iterate x w f u := by
  cases hx : x w f u with
  | hit rest f' u' =>
      by_cases hlt : rest.length < w.length
      · rw [iterate_hit hx hlt]
        exact iterate_orElse x rest f' u' other
      · rw [iterate_still hx (Nat.not_lt.1 hlt), Outcome.orElse_hit]
  | miss f' u' => rw [iterate_miss hx, Outcome.orElse_hit]
  | stop why u' => rw [iterate_stop hx, Outcome.orElse_stop]
  termination_by w.length

/-- Where nothing lies between the rounds, the first one is like the others. -/
theorem star_nothing (x : Reader V W) : star nothing x = iterate x := by
  funext w f u
  unfold star optional choice plus
  cases hx : x w f u with
  | hit rest f' u' =>
      rw [Outcome.andThen_hit, nothing_seq]
      by_cases hlt : rest.length < w.length
      · rw [if_pos hlt, iterate_progress, iterate_hit hx hlt, iterate_orElse]
      · rw [if_neg hlt, iterate_still hx (Nat.not_lt.1 hlt), Outcome.orElse_hit]
  | miss f' u' =>
      rw [iterate_miss hx]
      rfl
  | stop why u' =>
      rw [iterate_stop hx]
      rfl

/-- Rounds that hit and advance, one directly behind the other. -/
inductive Rounds (x : Reader V W) :
    List Char → Frame V → W → List Char → Frame V → W → Prop where
  | none (w : List Char) (f : Frame V) (u : W) : Rounds x w f u w f u
  | more {w rest rest' : List Char} {f f' f'' : Frame V} {u u' u'' : W}
      (h : x w f u = .hit rest f' u') (hlt : rest.length < w.length)
      (hrest : Rounds x rest f' u' rest' f'' u'') : Rounds x w f u rest' f'' u''

namespace Rounds

theorem single (h : x w f u = .hit rest f' u') (hlt : rest.length < w.length) :
    Rounds x w f u rest f' u' := .more h hlt (.none rest f' u')

theorem append {w' : List Char} {f'' : Frame V} {u'' : W} (h : Rounds x w f u rest f' u')
    (h' : Rounds x rest f' u' w' f'' u'') : Rounds x w f u w' f'' u'' := by
  induction h with
  | none => exact h'
  | more hround hlt hrest ih => exact .more hround hlt (ih h')

theorem iterate {f'' : Frame V} {u'' : W} (h : Rounds x w f u rest f' u')
    (hend : x rest f' u' = .miss f'' u'') :
    iterate (progress x) w f u = .hit rest f'' u'' := by
  induction h with
  | none => exact iterate_miss (progress_miss hend)
  | more hround hlt hrest ih =>
      rw [iterate_hit (progress_hit hround hlt) hlt]
      exact ih hend

/-- A repetition that needs one round. -/
theorem plus {rest' : List Char} {f'' f''' : Frame V} {u'' u''' : W}
    (h : x w f u = .hit rest f' u') (hlt : rest.length < w.length)
    (hrest : Rounds x rest f' u' rest' f'' u'') (hend : x rest' f'' u'' = .miss f''' u''') :
    plus nothing x w f u = .hit rest' f''' u''' := by
  rw [Reader.plus, h, Outcome.andThen_hit, if_pos hlt, nothing_seq]
  exact hrest.iterate hend

theorem star {f'' : Frame V} {u'' : W} (h : Rounds x w f u rest f' u')
    (hend : x rest f' u' = .miss f'' u'') : star nothing x w f u = .hit rest f'' u'' := by
  cases h with
  | none => exact star_miss hend
  | more hround hlt hrest => exact optional_hit (plus hround hlt hrest hend)

/-- One round for each character. -/
theorem of_chars {front : List Char} (h : ∀ c ∈ front, ∀ w, x (c :: w) f u = .hit w f u)
    (rest : List Char) : Rounds x (front ++ rest) f u rest f u := by
  induction front with
  | nil => exact .none rest f u
  | cons c front ih =>
      exact .more (h c List.mem_cons_self _) (Nat.lt_succ_self _)
        (ih fun c hc => h c (List.mem_cons_of_mem _ hc))

end Rounds

/-- No character of the kind stands at the beginning of the text. -/
def Ends (accept : Char → Bool) (rest : List Char) : Prop := ∀ c ∈ rest.head?, accept c = false

theorem ends_cons {accept : Char → Bool} {c : Char} (h : accept c = false) {rest : List Char} :
    Ends accept (c :: rest) := by
  rintro _ ⟨⟩
  exact h

theorem Ends.any_head? {accept : Char → Bool} (h : Ends accept rest) :
    rest.head?.any accept = false := by
  cases rest with
  | nil => rfl
  | cons c rest => exact h c rfl

theorem ends_iff_any_head? {accept : Char → Bool} :
    Ends accept rest ↔ rest.head?.any accept = false := by
  refine ⟨Ends.any_head?, fun h c hc => ?_⟩
  rwa [Option.mem_def.1 hc] at h

theorem ends_dropWhile (accept : Char → Bool) (t : List Char) :
    Ends accept (t.dropWhile accept) := by
  intro c hc
  have h := List.head?_dropWhile_not accept t
  rw [Option.mem_def.1 hc] at h
  exact h

theorem Ends.not_begins {c : Char} (h : Ends (· == c) rest) (word : List Char) :
    ¬ c :: word <+: rest := by
  rintro ⟨back, rfl⟩
  exact absurd (h c rfl) (by simp)

theorem star_oneChar {accept : Char → Bool} {front rest : List Char} (h : ∀ c ∈ front, accept c)
    (hrest : Ends accept rest) (f : Frame V) (u : W) :
    star nothing (oneChar accept) (front ++ rest) f u = .hit rest f u :=
  (Rounds.of_chars (fun c hc w => by simp [h c hc]) rest).star (oneChar_miss hrest f u)

/-- A run of characters ends before the first one of another kind. -/
theorem star_oneChar_eq (accept : Char → Bool) (w : List Char) (f : Frame V) (u : W) :
    star nothing (oneChar accept) w f u = .hit (w.dropWhile accept) f u := by
  have hfront : ∀ c ∈ w.takeWhile accept, accept c := fun c hc => List.mem_takeWhile_imp hc
  have hrest : Ends accept (w.dropWhile accept) := by
    intro c hc
    have hnot := List.head?_dropWhile_not accept w
    rw [hc] at hnot
    simpa using hnot
  have hread := star_oneChar hfront hrest f u
  rwa [List.takeWhile_append_dropWhile] at hread

theorem plus_oneChar {accept : Char → Bool} {front rest : List Char} (h : ∀ c ∈ front, accept c)
    (hfront : front ≠ []) (hrest : Ends accept rest) (f : Frame V) (u : W) :
    plus nothing (oneChar accept) (front ++ rest) f u = .hit rest f u := by
  obtain ⟨c, front, rfl⟩ := List.exists_cons_of_ne_nil hfront
  have hfirst : oneChar accept (c :: (front ++ rest)) f u = .hit (front ++ rest) f u := by
    simp [h c List.mem_cons_self]
  refine Rounds.plus hfirst (Nat.lt_succ_self _) (Rounds.of_chars (fun c hc w => ?_) rest)
    (oneChar_miss hrest f u)
  simp [h c (List.mem_cons_of_mem _ hc)]

/-- A run of at least one character. -/
theorem plus_oneChar_eq (accept : Char → Bool) (w : List Char) (f : Frame V) (u : W) :
    plus nothing (oneChar accept) w f u =
      if w.head?.any accept then .hit (w.dropWhile accept) f u else .miss f u := by
  cases w with
  | nil => rfl
  | cons c w =>
      show _ = if accept c then _ else _
      by_cases hc : accept c
      · have hround : oneChar accept (c :: w) f u = .hit w f u := by
          rw [oneChar_cons, if_pos hc]
        have hrest := star_oneChar_eq accept w f u
        rw [star_nothing] at hrest
        have hlt : w.length < (c :: w).length := Nat.lt_succ_self _
        rw [if_pos hc, plus, hround, Outcome.andThen_hit, if_pos hlt, nothing_seq, iterate_progress,
          hrest, List.dropWhile_cons_of_pos hc]
      · have hmiss : oneChar accept (c :: w) f u = .miss f u := by
          rw [oneChar_cons, if_neg hc]
        rw [if_neg hc, plus_miss hmiss]

/-- What stands before the first mark is read up to it. -/
theorem star_untilMark (mark : List Char) {front : List Char} (rest : List Char) (hmark : mark ≠ [])
    (h : ∀ back, back <:+ front → back ≠ [] → ¬ mark <+: back ++ (mark ++ rest)) (f : Frame V)
    (u : W) :
    star nothing (difference (oneChar fun _ => true) (literal mark)) (front ++ (mark ++ rest)) f u =
      .hit (mark ++ rest) f u := by
  have hrounds : Rounds (difference (oneChar fun _ => true) (literal mark))
      (front ++ (mark ++ rest)) f u (mark ++ rest) f u := by
    induction front with
    | nil => exact .none _ f u
    | cons c front ih =>
        have hround := h (c :: front) List.suffix_rfl (List.cons_ne_nil c front)
        refine .more (difference_hit (oneChar_cons _ c _ f u) (literal_miss hround f u))
          (Nat.lt_succ_self _) (ih fun back hback => h back (hback.trans (List.suffix_cons c front)))
  obtain ⟨c, word, rfl⟩ := List.exists_cons_of_ne_nil hmark
  refine hrounds.star (difference_miss (oneChar_cons _ c (word ++ rest) f u)
    (literal_hit (c :: word) rest f u) ?_)
  simp

end Reader

end AttrGrammar.Peg

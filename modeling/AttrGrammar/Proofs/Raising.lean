import AttrGrammar.Proofs.ReadingSteps

/-! Texts that are read to their end unless an action raises. Where the text alone tells whether it
will, and with which message, both ends come from one argument: of the parts of a text the first one
that gives a reason to raise settles the matter, and without any reason each part is read behind the
one before. -/

namespace AttrGrammar.Peg
open Text

namespace Outcome

variable {α β μ ν W : Type} {o : Outcome α μ W} {reason reason' : Option String}
  {rest rest' : List Char} {a : α} {b : β} {u u' : W}

/-- Without a reason to raise there is a hit with this rest, result and world; with a reason the parse
stops for it. -/
def Yields (o : Outcome α μ W) (reason : Option String) (rest : List Char) (a : α) (u : W) : Prop :=
  match reason with
  | none => o = .hit rest a u
  | some reason => ∃ u', o = .stop (.raised reason) u'

namespace Yields

theorem of_hit (h : o = .hit rest a u) : o.Yields none rest a u := h

theorem andThen {next : List Char → α → W → Outcome β μ W} (h : o.Yields reason rest a u)
    (hnext : (next rest a u).Yields reason' rest' b u') :
    (o.andThen next).Yields (reason.or reason') rest' b u' := by
  cases reason with
  | none =>
      rw [show o = _ from h, andThen_hit]
      exact hnext
  | some reason =>
      obtain ⟨v, rfl⟩ := h
      exact ⟨v, rfl⟩

theorem orElse {other : μ → W → Outcome α ν W} (h : o.Yields reason rest a u) :
    (o.orElse other).Yields reason rest a u := by
  cases reason with
  | none => rw [show o = _ from h]; rfl
  | some reason =>
      obtain ⟨v, rfl⟩ := h
      exact ⟨v, rfl⟩

theorem map {onHit : α → β} {onMiss : μ → ν} (h : o.Yields reason rest a u) :
    (o.map onHit onMiss).Yields reason rest (onHit a) u := by
  cases reason with
  | none => rw [show o = _ from h]; rfl
  | some reason =>
      obtain ⟨v, rfl⟩ := h
      exact ⟨v, rfl⟩

end Yields

end Outcome

namespace Reader

variable {V W : Type} {x y : Reader V W} {w rest rest' : List Char} {f f' f'' : Frame V}
  {u u' u'' : W} {reason reason' : Option String}

open Outcome

theorem yields_seq (hx : (x w f u).Yields reason rest f' u')
    (hy : (y rest f' u').Yields reason' rest' f'' u'') :
    (x.seq y w f u).Yields (reason.or reason') rest' f'' u'' := hx.andThen hy

/-- Only what stands behind the first part can raise. -/
theorem yields_hit_seq (hx : x w f u = .hit rest f' u')
    (hy : (y rest f' u').Yields reason rest' f'' u'') :
    (x.seq y w f u).Yields reason rest' f'' u'' := by
  rw [seq_hit hx]
  exact hy

/-- Only the first part can raise. -/
theorem yields_seq_hit (hx : (x w f u).Yields reason rest f' u')
    (hy : y rest f' u' = .hit rest' f'' u'') : (x.seq y w f u).Yields reason rest' f'' u'' := by
  have h := yields_seq hx (.of_hit hy)
  rwa [Option.or_none] at h

/-- The first part misses and leaves everything as it was. -/
theorem yields_choice_right (hx : x w f u = .miss f u)
    (hy : (y w f u).Yields reason rest f' u') : (x.choice y w f u).Yields reason rest f' u' := by
  rw [choice_right hx rfl]
  exact hy

theorem yields_choice (h : (x w f u).Yields reason rest f' u') :
    (x.choice y w f u).Yields reason rest f' u' := h.orElse

theorem yields_expect (h : (x w f u).Yields reason rest f' u') :
    (expect x w f u).Yields reason rest f' u' := h.orElse

/-- An action that neither raises nor has regard to the text. -/
theorem yields_action {run : ActionContext V W → ActionContext V W}
    (h : (x w f u).Yields reason rest f' u')
    (hrun : ∀ text, run (.of f' text u') = .of f'' text u'') :
    (action run x w f u).Yields reason rest f'' u'' := by
  cases reason with
  | none => exact action_any h hrun
  | some reason =>
      obtain ⟨v, hv⟩ := h
      exact ⟨v, action_stop hv⟩

/-- An action that raises. -/
theorem action_raised {run : ActionContext V W → ActionContext V W} {front : List Char}
    {reason : String} (h : x (front ++ rest) f u = .hit rest f' u')
    (hrun : (run (.of f' front u')).error = some reason) :
    ∃ v, action run x (front ++ rest) f u = .stop (.raised reason) v := by
  refine ⟨(run (.of f' front u')).world, ?_⟩
  rw [action, h, andThen_hit, consumed_append]
  dsimp only
  rw [hrun]

variable {call : Callee V W} {instanceName : String} {args : List (Argument V)} {values : List V}

theorem yields_nonterminal {v : Option V} (hargs : args.mapM (· f) = some values)
    (h : (call values w u).Yields reason rest v u') :
    (nonterminal call instanceName args w f u).Yields reason rest
      (v.elim f (f.setInstance instanceName)) u' := by
  rw [nonterminal, hargs]
  exact h.map

section

variable {locals inherited : List String} {tree : Reader V W} {g : Frame V}

theorem yields_activation
    (h : (tree w ((Frame.ofLocals locals).bindInherited inherited values) u).Yields reason rest g
      u') : (activation locals inherited false tree values w u).Yields reason rest none u' := by
  cases reason with
  | none => exact activation_hit h
  | some reason =>
      obtain ⟨v, hv⟩ := h
      exact ⟨v, by rw [activation, hv]⟩

theorem yields_activation_value {v : V}
    (h : (tree w ((Frame.ofLocals locals).bindInherited inherited values) u).Yields reason rest g
      u') (hv : g.value = some v) :
    (activation locals inherited true tree values w u).Yields reason rest (some v) u' := by
  cases reason with
  | none => exact activation_value h hv
  | some reason =>
      obtain ⟨u'', hstop⟩ := h
      exact ⟨u'', by rw [activation, hstop]⟩

end

/-- A run of characters takes one round of a repetition, or none if it is empty. -/
theorem iterate_run {run : List Char} (h : run ≠ [] → x (run ++ rest) f u = .hit rest f' u')
    (hnil : run = [] → f' = f ∧ u' = u) :
    iterate x (run ++ rest) f u = iterate x rest f' u' := by
  by_cases hrun : run = []
  · obtain ⟨rfl, rfl⟩ := hnil hrun
    rw [hrun, List.nil_append]
  · refine iterate_hit (h hrun) ?_
    rw [List.length_append]
    exact Nat.lt_add_of_pos_left (List.length_pos_iff.2 hrun)

/-- One more round of a repetition. -/
theorem yields_iterate {front : List Char} (hfront : 0 < front.length)
    (h : (x (front ++ rest) f u).Yields reason rest f' u')
    (hrest : (iterate x rest f' u').Yields reason' rest' f'' u'') :
    (iterate x (front ++ rest) f u).Yields (reason.or reason') rest' f'' u'' := by
  cases reason with
  | none =>
      have hlt : rest.length < (front ++ rest).length := by
        rw [List.length_append]
        exact Nat.lt_add_of_pos_left hfront
      rw [iterate_hit h hlt]
      exact hrest
  | some reason =>
      obtain ⟨v, hv⟩ := h
      exact ⟨v, iterate_stop hv⟩

end Reader

end AttrGrammar.Peg

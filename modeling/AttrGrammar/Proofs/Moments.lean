import AttrGrammar.Scan.Scanner
import Mathlib.Data.List.Induction
import Mathlib.Logic.Relation

/-! The moments of a cursor. A cursor either reads one more character or goes back to a place where
it stood before, so where it stands, and how far it ever came, can be told from the text alone. A
history is the list of its moments, the latest one first. -/

namespace AttrGrammar.Text

namespace Position

/-- The place behind the first characters of the text, as many as its offset counts. -/
structure In (text : Buffer) (p : Position) : Prop where
  offset_le : p.offset ≤ text.size
  eq_after : p = after (text.toList.take p.offset)

theorem start_in (text : Buffer) : start.In text := ⟨Nat.zero_le _, rfl⟩

theorem line_advanced (p : Position) (c : Char) :
    (p.advanced c).line = p.line + if c == '\n' then 1 else 0 := by
  unfold advanced
  by_cases hc : c = '\n' <;> simp [hc]

theorem line_foldl (text : List Char) (p : Position) :
    (text.foldl advanced p).line = p.line + text.count '\n' := by
  induction text generalizing p with
  | nil => rfl
  | cons c text ih => rw [List.foldl_cons, ih, line_advanced, List.count_cons]; omega

/-- Lines are counted by the line feeds in front. -/
theorem In.line_eq {text : Buffer} {p : Position} (h : p.In text) :
    p.line = 1 + (text.toList.take p.offset).count '\n' :=
  (congrArg line h.eq_after).trans (line_foldl _ start)

/-- A line feed sends the column back to the first one; all other characters move it on. -/
theorem column_after_append (text : List Char) (c : Char) :
    (after (text ++ [c])).column = if c = '\n' then 1 else (after text).column + 1 := by
  rw [after, List.foldl_append]
  show ((after text).advanced c).column = _
  by_cases hc : c = '\n' <;> simp [advanced, hc]

/-- The column that is kept up character by character can be told by searching backwards for the
last line feed. -/
theorem column_after (text : List Char) :
    (after text).column = (text.reverse.takeWhile (· != '\n')).length + 1 := by
  induction text using List.reverseRecOn with
  | nil => rfl
  | append_singleton text c ih =>
      rw [column_after_append, List.reverse_append, List.reverse_singleton, List.singleton_append]
      by_cases hc : c = '\n'
      · simp [hc]
      · simp [hc, ih]

theorem In.column_eq {text : Buffer} {p : Position} (h : p.In text) :
    p.column = ((text.toList.take p.offset).reverse.takeWhile (· != '\n')).length + 1 :=
  (congrArg column h.eq_after).trans (column_after _)

theorem In.advanced {text : Buffer} {p : Position} (h : p.In text) (hlt : p.offset < text.size) :
    (p.advanced text[p.offset]).In text := by
  have hoffset := offset_advanced p text[p.offset]
  have hlast : text.toList[p.offset]? = some text[p.offset] := by simp [hlt]
  refine ⟨by omega, ?_⟩
  rw [hoffset, List.take_add_one, hlast, after, List.foldl_append]
  exact congrArg (·.advanced text[p.offset]) h.eq_after

end Position

/-- The stretch lies in the text, and on the lines that it says. -/
structure Span.Lies (text : Buffer) (span : Span) : Prop where
  start_le : span.start ≤ span.stop
  stop_le : span.stop ≤ text.size
  startLine : span.startLine = 1 + (text.toList.take span.start).count '\n'
  stopLine : span.stopLine = 1 + (text.toList.take span.stop).count '\n'

theorem Span.between_lies {text : Buffer} {p q : Position} (hp : p.In text) (hq : q.In text)
    (hle : p.offset ≤ q.offset) (fileIndex : Nat) : (between fileIndex p q).Lies text :=
  ⟨hle, hq.offset_le, hp.line_eq, hq.line_eq⟩

end AttrGrammar.Text

namespace AttrGrammar.Scan
open Text Relation

theorem Source.toList_textBetween {source : Source} {p q : Position} (hle : p.offset ≤ q.offset)
    (hq : q.In source.text) : (source.textBetween p q).toList =
      (source.text.toList.drop p.offset).take (q.offset - p.offset) := by
  have hbound : p.offset + (q.offset - p.offset) ≤ source.text.size := by
    have := hq.offset_le
    omega
  have hslice := Slice.toList_slice hbound
  rwa [Nat.add_sub_cancel' hle] at hslice

namespace Cursor

variable {text : Buffer} {history history' : List Cursor} {c d : Cursor}

/-- One more moment of a cursor: it has read a character, or gone back to a place where it stood. -/
inductive Moves (text : Buffer) : List Cursor → List Cursor → Prop where
  | read {c : Cursor} {past : List Cursor} (hlt : c.offset < text.size) :
      Moves text (c :: past) (c.advance text :: c :: past)
  | back {c d : Cursor} {past : List Cursor} (hmem : d ∈ c :: past) :
      Moves text (c :: past) (c.restore d.position :: c :: past)

/-- At each moment the cursor stands at a place of the text, and its farthest place is one where it
has stood so far and which lies behind all others. -/
def Charted (text : Buffer) : List Cursor → Prop
  | [] => True
  | c :: past => (c.position.In text ∧ (∃ d ∈ c :: past, d.position = c.farthest) ∧
      ∀ d ∈ c :: past, d.offset ≤ c.farthest.offset) ∧ Charted text past

theorem charted_start (text : Buffer) : Charted text [start] :=
  ⟨⟨Position.start_in text, ⟨start, List.mem_singleton_self _, rfl⟩, fun d hd => by
    rw [List.mem_singleton.1 hd]; exact Nat.le_refl _⟩, trivial⟩

theorem Charted.inText (h : Charted text history) (hmem : c ∈ history) : c.position.In text := by
  induction history with
  | nil => cases hmem
  | cons d past ih =>
      obtain rfl | hmem := List.mem_cons.1 hmem
      · exact h.1.1
      · exact ih h.2 hmem

theorem Charted.move (h : Charted text history) (hmove : Moves text history history') :
    Charted text history' := by
  cases hmove with
  | @read c past hlt =>
      obtain ⟨hplace, ⟨e, he, hfarthest⟩, hmax⟩ := h.1
      have hpeek : c.peek? text = some text[c.offset] := by simp [peek?, hlt]
      let next := c.position.advanced text[c.offset]
      have hnext : next.offset = c.offset + 1 := Position.offset_advanced _ _
      have hadvance : c.advance text = c.moveTo next := by rw [advance, hpeek]
      rw [hadvance]
      -- Only a place behind all former ones becomes the farthest.
      by_cases hfurther : c.farthest.offset < next.offset
      · have hmoved : (c.moveTo next).farthest = next := if_pos hfurther
        refine ⟨⟨hplace.advanced hlt, ⟨_, List.mem_cons_self, hmoved.symm⟩, fun d hd => ?_⟩, h⟩
        rw [hmoved]
        obtain rfl | hd := List.mem_cons.1 hd
        · exact Nat.le_refl _
        · exact Nat.le_of_lt (Nat.lt_of_le_of_lt (hmax d hd) hfurther)
      · have hmoved : (c.moveTo next).farthest = c.farthest := if_neg hfurther
        refine ⟨⟨hplace.advanced hlt, ⟨e, List.mem_cons_of_mem _ he, ?_⟩, fun d hd => ?_⟩, h⟩
        · rw [hmoved, hfarthest]
        rw [hmoved]
        obtain rfl | hd := List.mem_cons.1 hd
        · exact Nat.not_lt.1 hfurther
        · exact hmax d hd
  | @back c d past hmem =>
      obtain ⟨-, ⟨e, he, hfarthest⟩, hmax⟩ := h.1
      have hplace : d.position.In text := h.inText hmem
      refine ⟨⟨hplace, ⟨e, List.mem_cons_of_mem _ he, hfarthest⟩, fun e he => ?_⟩, h⟩
      obtain rfl | he := List.mem_cons.1 he
      · exact hmax d hmem
      · exact hmax e he

theorem Charted.moves (h : Charted text history)
    (hmoves : ReflTransGen (Moves text) history history') : Charted text history' := by
  induction hmoves with
  | refl => exact h
  | tail _ hmove ih => exact ih.move hmove

theorem Moves.subset (h : Moves text history history') : history ⊆ history' := by
  cases h <;> exact List.subset_cons_self _ _

theorem subset_of_moves (h : ReflTransGen (Moves text) history history') : history ⊆ history' := by
  induction h with
  | refl => exact List.Subset.refl _
  | tail _ hmove ih => exact List.Subset.trans ih hmove.subset

end Cursor

end AttrGrammar.Scan

import AttrGrammar.Proofs.Places

/-! Lines and columns of errors. The cursor keeps up its line and column as it reads and takes them
back as it goes back. An error keeps neither: its line comes with its span, and its column is counted
from the text, backwards to the last line feed. The two accounts agree wherever a cursor can stand,
so they agree where an error lies. -/

namespace AttrGrammar.Parse
open Text Scan Peg Relation

variable {V W : Type}

namespace Location

variable {l : Location} {p : Position}

/-- In front of a place of the text nothing is cut off. -/
theorem before_eq (hstart : l.span.start = p.offset) (hp : p.In l.text) :
    l.before = (l.text.toList.take p.offset).reverse := by
  have hoffset : l.startOffset = p.offset := by
    rw [startOffset, hstart, Nat.min_eq_left hp.offset_le]
  rw [before, hoffset, Array.toList_extract, List.extract_eq_take_drop, Nat.sub_zero,
    List.drop_zero]

theorem column_eq (hstart : l.span.start = p.offset) (hp : p.In l.text) :
    l.column = p.column := by
  rw [column, indentation, before_eq hstart hp, hp.column_eq]

theorem line_eq (hlies : l.span.Lies l.text) (hstart : l.span.start = p.offset)
    (hp : p.In l.text) : l.line = p.line := by
  rw [line, hlies.startLine, hstart, hp.line_eq]

end Location

/-- The line and the column of an error. It lies at a place where the cursor stood, and the line and
the column that are told from its span and the text are those which the cursor kept there, on
whatever way it came to that place. -/
theorem parseWithin_columns (d : Domain V W) (g : Grammar) (text : Buffer) (options : Options V)
    (fuel : Nat) (world : W) :
    let setting := settingFor d g text options
    let run := runGrammar d g setting fuel options.args (.start options.log world)
    let last := (Ending.state run).scanner.cursor
    ∃ past, ReflTransGen (Cursor.Moves text) [Cursor.start] (last :: past) ∧
      ∀ e location, (parseWithin fuel d g text options world).outcome = .error (.error e) →
        e.location? = some location →
          (∃ c ∈ last :: past, c.offset = location.span.start) ∧
          ∀ history, ReflTransGen (Cursor.Moves text) [Cursor.start] history →
            ∀ c ∈ history, c.offset = location.span.start →
              location.line = c.position.line ∧ location.column = c.position.column := by
  intro setting run last
  obtain ⟨past, hsurveyed, hlocated⟩ := parseWithin_located d g text options fuel world
  refine ⟨past, hsurveyed.path, fun e location he hlocation => ?_⟩
  obtain ⟨span, hspan, rfl, -⟩ := hlocated e location he hlocation
  have hlies : span.Lies text := hspan.lies hsurveyed.charted
  obtain ⟨c, hc, d', -, -, rfl⟩ := hspan
  refine ⟨⟨c, hc, rfl⟩, fun history hmoves c' hc' hoffset => ?_⟩
  have hplace : c'.position.In text := ((Cursor.charted_start text).moves hmoves).inText hc'
  exact ⟨Location.line_eq hlies hoffset.symm hplace, Location.column_eq hoffset.symm hplace⟩

/-- The error lies on the second line, and so did the cursor when it came there. -/
theorem parseWithin_columns_branch :
    ∃ e location, (parseWithin 1 branchDomain branches branchText {} ()).outcome =
        .error (.error e) ∧ e.location? = some location ∧
      location.line = 2 ∧ location.column = 2 ∧
      ∃ history, ReflTransGen (Cursor.Moves branchText) [Cursor.start] history ∧
        ∃ c ∈ history, c.offset = 3 ∧ c.position.line = 2 ∧ c.position.column = 2 := by
  obtain ⟨past, hmoves, herror⟩ := parseWithin_columns branchDomain branches branchText {} 1 ()
  obtain ⟨⟨c, hc, hoffset⟩, hsame⟩ := herror _ _ rfl rfl
  obtain ⟨hline, hcolumn⟩ := hsame _ hmoves c hc hoffset
  exact ⟨_, _, rfl, rfl, rfl, rfl, _, hmoves, c, hc, hoffset, hline.symm, hcolumn.symm⟩

end AttrGrammar.Parse

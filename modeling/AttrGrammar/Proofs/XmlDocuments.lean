import AttrGrammar.Proofs.XmlEvents
import AttrGrammar.Proofs.XmlReferences

/-! Reading whole documents as they are written. Each part is read to its end, unless a reference in it
stops the parse; what follows a part cannot belong to it, so that no part is read further. The first
reference that is not valid decides, and if all are valid, the events of the document are reported. -/

namespace AttrGrammar.Xml
open Text Peg
open Reader Context

variable {σ : Type} {rest : List Char} {u : Receiver σ}

/-! ### Attributes -/

theorem AttributeValue.ends {accept : Char → Bool} (h : ∀ quote : Quote, accept quote.mark = false)
    (v : AttributeValue) (rest : List Char) : Ends accept (v.write ++ rest) :=
  ends_cons (h v.quote)

theorem Attribute.reads {k : Nat} (hk : 4 ≤ k) (a : Attribute) (rest : List Char)
    (hu : u.isBusy = false) :
    (reader k "Attribute" [.processor] (a.body ++ rest) u).Yields (firstFault? a.value.references)
      rest none (u.takeAll [a.event]) := by
  obtain ⟨k, rfl⟩ := Nat.exists_eq_add_of_le' hk
  have hwritten : a.body ++ rest = a.name.text.toList ++
      (a.before.chars ++ '=' :: (a.behind.chars ++ (a.value.write ++ rest))) := by
    simp [body]
  have hname : Ends isNameChar (a.before.chars ++ '=' :: (a.behind.chars ++ (a.value.write ++ rest))) :=
    a.before.ends isBlank_nameChar (ends_cons (by decide))
  have hquote : Ends isBlank (a.value.write ++ rest) :=
    a.value.ends (fun quote => by cases quote <;> decide) rest
  rw [hwritten, show k + 4 = (k + 3) + 1 from rfl, reader_succ]
  refine yields_activation (yields_action ?_ fun text =>
    emitAttribute_of a.name.text (.ofList a.value.text) text hu)
  exact yields_hit_seq (reading_name (by omega) a.name hname _ _)
    (yields_hit_seq (optional_run (by omega) a.before (ends_cons (by decide)) _ _)
    (yields_hit_seq (requiredChar_hit ..)
    (yields_hit_seq (optional_run (by omega) a.behind hquote _ _)
    (yields_expect (yields_nonterminal rfl (a.value.reads (by omega) rest u))))))

theorem reader_attribute_miss {k : Nat} (hk : 2 ≤ k) (hrest : Ends isNameStart rest)
    (args : List Value) (u : Receiver σ) : reader k "Attribute" args rest u = .miss () u := by
  obtain ⟨k, rfl⟩ := Nat.exists_eq_add_of_le' hk
  rw [show k + 2 = (k + 1) + 1 from rfl, reader_succ]
  refine activation_miss (action_miss (seq_miss (nonterminal_miss rfl ?_)))
  rw [reader_name (by omega)]
  exact readName_miss hrest []

/-- Blanks and the attribute behind them. -/
abbrev nextAttribute (call : Rules σ) : Reader Value (Receiver σ) :=
  (reading call "S").seq (reporting call "Attribute")

theorem nextAttribute_miss {k : Nat} (hk : 2 ≤ k) (blanks : Run isBlank)
    (hname : Ends isNameStart rest) (hblank : Ends isBlank rest) (tag : Option String)
    (u : Receiver σ) :
    nextAttribute (reader k) (blanks.chars ++ rest) (elementFrame tag) u =
      .miss (elementFrame tag) u := by
  by_cases hchars : blanks.chars = []
  · rw [hchars]
    refine seq_miss (nonterminal_miss rfl ?_)
    rw [reader_blanks (by omega)]
    exact readBlanks_miss hblank []
  · exact (seq_hit (reading_gap (by omega) ⟨blanks, hchars⟩ hblank _ u)).trans
      (reporting_miss rfl (reader_attribute_miss hk hname _ u))

theorem nextAttribute_reads {k : Nat} (hk : 4 ≤ k) (a : Attribute) (rest : List Char)
    (tag : Option String) (hu : u.isBusy = false) :
    (nextAttribute (reader k) (a.write ++ rest) (elementFrame tag) u).Yields
      (firstFault? a.value.references) rest (elementFrame tag) (u.takeAll [a.event]) := by
  have hblank : Ends isBlank (a.body ++ rest) := by
    rw [Attribute.body, List.append_assoc]
    exact a.name.ends isBlank_nameStart _
  rw [Attribute.write, List.append_assoc]
  exact yields_hit_seq (reading_gap (by omega) a.gap hblank _ u)
    (yields_reporting rfl (a.reads hk rest hu))

theorem Attribute.length_write_pos (a : Attribute) : 0 < a.write.length := by
  rw [write, List.length_append]
  exact Nat.add_pos_left (List.length_pos_iff.2 a.gap.nonempty) _

/-- The attributes of a tag are read one by one. -/
theorem attributes_read {k : Nat} (hk : 4 ≤ k) (attributes : List Attribute) (tag : Option String)
    (hmiss : ∀ u : Receiver σ,
      nextAttribute (reader k) rest (elementFrame tag) u = .miss (elementFrame tag) u)
    (hu : u.isBusy = false) :
    (iterate (nextAttribute (reader k)) (attributes.flatMap Attribute.write ++ rest)
      (elementFrame tag) u).Yields (firstFault? (attributes.flatMap fun a => a.value.references))
        rest (elementFrame tag) (u.takeAll (attributes.map Attribute.event)) := by
  induction attributes generalizing u with
  | nil => exact iterate_miss (hmiss u)
  | cons a attributes ih =>
      rw [List.flatMap_cons, List.append_assoc, List.flatMap_cons, firstFault?_append]
      exact yields_iterate a.length_write_pos (nextAttribute_reads hk a _ tag hu) (ih hu)

/-! ### Elements -/

/-- An element is read once what stands behind its name, attributes and blanks is. -/
theorem reader_tag {k : Nat} (hk : 4 ≤ k) (t : Tag) {c : Char} (hc : c = '>' ∨ c = '/')
    {behind : List Char} {reason : Option String} {u' : Receiver σ} (hu : u.isBusy = false)
    (h : (restOfElement (reader k) (c :: behind) (elementFrame (some t.name.text))
      (u.takeAll t.events)).Yields reason rest (elementFrame none) u') :
    (reader (k + 1) "Element" [.processor] (t.write ++ c :: behind) u).Yields
      ((firstFault? t.references).or reason) rest none u' := by
  have hwritten : t.write ++ c :: behind = '<' :: (t.name.text.toList ++
      (t.attributes.flatMap Attribute.write ++ (t.blanks.chars ++ c :: behind))) := by
    simp [Tag.write]
  have hblank : Ends isBlank (c :: behind) := ends_cons (by rcases hc with rfl | rfl <;> decide)
  have hstart : Ends isNameStart (c :: behind) := ends_cons (by rcases hc with rfl | rfl <;> decide)
  have hname : Ends isNameChar (t.attributes.flatMap Attribute.write ++
      (t.blanks.chars ++ c :: behind)) := by
    cases t.attributes with
    | nil =>
        exact t.blanks.ends isBlank_nameChar
          (ends_cons (by rcases hc with rfl | rfl <;> decide))
    | cons a attributes =>
        rw [List.flatMap_cons, Attribute.write, List.append_assoc, List.append_assoc]
        exact a.gap.ends isBlank_nameChar _
  rw [hwritten, reader_succ]
  refine yields_activation (yields_hit_seq (char_hit ..) (yields_hit_seq (action_any (reading_name
    (by omega) t.name hname (elementFrame none) u) fun text => beginElement_of t.name.text text hu)
    (yields_seq ?_ (yields_hit_seq (optional_run (by omega) t.blanks hblank _ _)
      (yields_expect h)))))
  rw [star_nothing]
  exact attributes_read hk t.attributes _ (nextAttribute_miss (by omega) t.blanks hstart hblank _) hu

theorem reader_empty {k : Nat} (hk : 5 ≤ k) (t : Tag) (rest : List Char) (hu : u.isBusy = false) :
    (reader k "Element" [.processor] (t.writeEmpty ++ rest) u).Yields (firstFault? t.references)
      rest none (u.takeAll (t.elementEvents [])) := by
  obtain ⟨k, rfl⟩ := Nat.exists_eq_add_of_le' hk
  have hclose : restOfElement (reader (k + 4)) ('/' :: '>' :: rest) (elementFrame (some t.name.text))
      (u.takeAll t.events) =
        .hit rest (elementFrame none) (u.takeAll (t.elementEvents [])) := by
    rw [Tag.elementEvents, Receiver.takeAll_append]
    exact choice_hit (action_any (literal_hit ['/', '>'] rest _ _) fun text =>
      closeEmpty_of t.name.text text hu)
  have hread := reader_tag (k := k + 4) (by omega) t (.inr rfl) hu (.of_hit hclose)
  rw [Option.or_none] at hread
  rw [Tag.writeEmpty, List.append_assoc]
  exact hread

/-- An element whose content is read up to the end tag. -/
theorem reader_element_content {k : Nat} (hk : 4 ≤ k) (t : Tag) (content : List Char)
    (blanks : Run isBlank) (rest : List Char) {references : List Reference} {events : List Event}
    (hu : u.isBusy = false)
    (hcontent : ∀ (text : List Char) (u : Receiver σ), u.isBusy = false →
      (reader k "Content" [.processor] (content ++ '<' :: '/' :: text) u).Yields
        (firstFault? references) ('<' :: '/' :: text) none (u.takeAll events)) :
    (reader (k + 1) "Element" [.processor] (t.writeElement content blanks ++ rest) u).Yields
      (firstFault? (t.references ++ references)) rest none (u.takeAll (t.elementEvents events)) := by
  have hwritten : t.writeElement content blanks ++ rest = t.write ++ '>' :: (content ++
      '<' :: '/' :: (t.name.text.toList ++ (blanks.chars ++ '>' :: rest))) := by
    simp [Tag.writeElement]
  have hevents : u.takeAll (t.elementEvents events) = (((u.takeAll t.events).takeAll
      [.endStartTag]).takeAll events).takeAll [.endTag t.name.text] := by
    simp only [← Receiver.takeAll_append]
    simp [Tag.elementEvents]
  rw [hwritten, firstFault?_append, hevents]
  exact reader_tag hk t (.inl rfl) hu (restOfElement_content (by omega) t.name blanks rest hu hu
    fun text => hcontent text _ hu)

/-! ### Content -/

/-- A run of characters in the content of an element is one piece, unless it is empty. -/
theorem content_run {k : Nat} (hk : 1 ≤ k) (run : Run (isPlain false))
    (hrest : Ends (isPlain false) rest) (hu : u.isBusy = false) :
    iterate (contentPiece (reader k)) (run.chars ++ rest) reportingFrame u =
      iterate (contentPiece (reader k)) rest reportingFrame (u.takeAll (runEvents run.chars)) := by
  refine iterate_run (fun hne => ?_) fun hnil => ⟨rfl, by rw [hnil]; rfl⟩
  rw [runEvents, if_neg hne]
  exact choice_hit (choice_hit (choice_hit (choice_hit (choice_hit (reporting_hit rfl
    (reader_charData hk hne run.valid hrest hu))))))

theorem Piece.reads {k : Nat} (hk : 5 ≤ k) (p : Piece) (rest : List Char) (hu : u.isBusy = false) :
    (contentPiece (reader k) (p.write ++ rest) reportingFrame u).Yields (firstFault? p.references)
      rest reportingFrame (u.takeAll p.events) := by
  cases p with
  | reference r =>
      have hread : (action emitReference (reading (reader k) "Reference") (r.write ++ rest)
          reportingFrame u).Yields r.fault? rest reportingFrame
            (u.takeAll [.text r.character.toString]) :=
        yields_action (yields_nonterminal rfl (r.reads (by omega) rest u)) fun text =>
          emitReference_of r.character.toString text hu
      have hmiss := choice_right
        (reporting_miss (f := reportingFrame) rfl (reader_charData_miss (k := k) (by omega)
          (r.ends (isPlain_ampersand false) rest) [.processor] u))
        (reporting_miss rfl (reader_element_miss (k := k) [.processor] (by omega)
          (r.ends (by decide) rest)))
      rw [references, firstFault?_singleton]
      exact yields_choice (yields_choice (yields_choice (yields_choice_right hmiss hread)))
  | empty t => exact contentPiece_element (by omega) (reader_empty hk t rest hu)
  | charSection t => exact contentPiece_charSection (by omega) t rest hu
  | misc m => exact contentPiece_misc (by omega) m rest hu

/-- A piece begins with a character that begins markup. -/
theorem Piece.ends (p : Piece) (rest : List Char) : Ends (isPlain false) (p.write ++ rest) := by
  cases p with
  | reference r => exact r.ends (isPlain_ampersand false) rest
  | empty t => exact ends_cons (c := '<') (by decide)
  | charSection t => exact ends_cons (c := '<') (by decide)
  | misc m => cases m <;> exact ends_cons (c := '<') (by decide)

theorem Piece.length_write_pos (p : Piece) : 0 < p.write.length := by
  cases p with
  | reference r => exact r.length_write_pos
  | empty t => simp [write, Tag.writeEmpty, Tag.write]
  | charSection t => simp [write]
  | misc m => exact m.length_write_pos

/-- The rule of content reads what its repetition of pieces reads. -/
theorem yields_content {k : Nat} {w : List Char} {reason : Option String} {u' : Receiver σ}
    (h : (iterate (contentPiece (reader k)) w reportingFrame u).Yields reason rest reportingFrame
      u') : (reader (k + 1) "Content" [.processor] w u).Yields reason rest none u' := by
  rw [reader_succ]
  refine yields_activation (g := reportingFrame) ?_
  rw [star_nothing]
  exact h

/-- The content of an element is read up to the end tag. -/
theorem Content.reads (c : Content) (k : Nat) (hk : 2 * c.write.length + 5 ≤ k) (text : List Char)
    (u : Receiver σ) (hu : u.isBusy = false) :
    (iterate (contentPiece (reader k)) (c.write ++ '<' :: '/' :: text) reportingFrame u).Yields
      (firstFault? c.references) ('<' :: '/' :: text) reportingFrame (u.takeAll c.events) := by
  induction c generalizing k text u with
  | last run =>
      exact (content_run (by omega) run (ends_cons (by decide)) hu).trans
        (iterate_miss (contentPiece_miss (by omega) text _))
  | piece run p rest ih =>
      simp only [write, List.length_append] at hk
      simp only [write, references, events, List.append_assoc, firstFault?_append,
        Receiver.takeAll_append]
      rw [content_run (by omega) run (p.ends _) hu]
      exact yields_iterate p.length_write_pos (p.reads (by omega) _ hu) (ih k (by omega) text _ hu)
  | element run t inner blanks rest ihInner ihRest =>
      obtain ⟨k, rfl⟩ := Nat.exists_eq_add_of_le' (Nat.le_trans (Nat.le_add_left 5 _) hk)
      -- Reading the content nests two more activations, but the content is shorter than the element.
      have hlength := t.length_writeElement inner.write blanks
      have hcontent (text : List Char) (u : Receiver σ) (hu : u.isBusy = false) :
          (reader (k + 4) "Content" [.processor] (inner.write ++ '<' :: '/' :: text) u).Yields
            (firstFault? inner.references) ('<' :: '/' :: text) none (u.takeAll inner.events) := by
        simp only [write, List.length_append] at hk
        exact yields_content (ihInner (k + 3) (by omega) text u hu)
      have hbracket (rest : List Char) :
          Ends (isPlain false) (t.writeElement inner.write blanks ++ rest) :=
        ends_cons (c := '<') (by decide)
      simp only [write, List.length_append] at hk
      rw [references, firstFault?_append]
      simp only [write, events, List.append_assoc, Receiver.takeAll_append]
      rw [content_run (by omega) run (hbracket _) hu]
      exact yields_iterate (by omega) (contentPiece_element (by omega) (reader_element_content
        (by omega) t inner.write blanks _ hu hcontent)) (ihRest (k + 5) (by omega) text _ hu)

/-! ### Documents -/

theorem Root.reads {k : Nat} (root : Root) (hk : 2 * root.write.length + 5 ≤ k) (rest : List Char)
    (hu : u.isBusy = false) :
    (reader k "Element" [.processor] (root.write ++ rest) u).Yields (firstFault? root.references)
      rest none (u.takeAll root.events) := by
  cases root with
  | empty t => exact reader_empty (by omega) t rest hu
  | element t content blanks =>
      obtain ⟨k, rfl⟩ := Nat.exists_eq_add_of_le' (Nat.le_trans (Nat.le_add_left 5 _) hk)
      rw [write] at hk
      have hlength := t.length_writeElement content.write blanks
      exact reader_element_content (k := k + 4) (by omega) t content.write blanks rest hu
        fun text u hu => yields_content (content.reads (k + 3) (by omega) text u hu)

theorem Root.write_eq (root : Root) : ∃ (name : Name) (behind : List Char),
    root.write = '<' :: (name.text.toList ++ behind) := by
  cases root with
  | empty t => exact ⟨t.name, _, by simp [write, Tag.writeEmpty, Tag.write]; rfl⟩
  | element t content blanks =>
      exact ⟨t.name, _, by simp [write, Tag.writeElement, Tag.write]; rfl⟩

/-- An element is no misc. -/
theorem misc_miss_root {k : Nat} (hk : 2 ≤ k) (root : Root) (rest : List Char) (u : Receiver σ) :
    reporting (reader k) "Misc" (root.write ++ rest) reportingFrame u = .miss reportingFrame u := by
  obtain ⟨name, behind, hwritten⟩ := root.write_eq
  have hnot {c : Char} (hc : isNameStart c = false) (word rest : List Char) :
      ¬ '<' :: c :: word <+: '<' :: (name.text.toList ++ rest) :=
    fun h => (name.ends_char hc rest).not_begins word (List.cons_prefix_cons.1 h).2
  rw [hwritten, List.cons_append, List.append_assoc]
  exact reporting_misc_miss hk (hnot (by decide) _ _) (hnot (by decide) _ _)
    (ends_cons (by decide)) u

theorem reporting_misc_blanks {k : Nat} (hk : 2 ≤ k) (gap : SomeRun isBlank)
    (hrest : Ends isBlank rest) (u : Receiver σ) :
    reporting (reader k) "Misc" (gap.chars ++ rest) reportingFrame u =
      .hit rest reportingFrame u := by
  obtain ⟨k, rfl⟩ := Nat.exists_eq_add_of_le' hk
  have hbracket : Ends (· == '<') (gap.chars ++ rest) := gap.ends (not_beq (by decide)) rest
  refine reporting_hit rfl ?_
  rw [show k + 2 = (k + 1) + 1 from rfl, reader_succ]
  exact activation_hit (choice_right (choice_right
    (reporting_miss rfl (reader_comment_miss _ (by omega) (hbracket.not_begins _)))
    (reporting_miss rfl (reader_instruction_miss _ (by omega) (hbracket.not_begins _))))
    (reading_gap (by omega) gap hrest reportingFrame u))

theorem reporting_misc {k : Nat} (hk : 3 ≤ k) (m : Misc) (rest : List Char) (hu : u.isBusy = false) :
    reporting (reader k) "Misc" (m.write ++ rest) reportingFrame u =
      .hit rest reportingFrame (u.takeAll [m.event]) := by
  obtain ⟨k, rfl⟩ := Nat.exists_eq_add_of_le' hk
  refine reporting_hit rfl ?_
  rw [show k + 3 = (k + 2) + 1 from rfl, reader_succ]
  cases m with
  | comment t =>
      rw [Misc.write, List.append_assoc, List.append_assoc]
      exact activation_hit (choice_hit (choice_hit
        (reporting_hit (f := reportingFrame) rfl (reader_comment (by omega) t rest hu))))
  | instruction i =>
      have hread := reader_instruction (k := k + 2) (by omega) i rest hu
      rw [Misc.write, Misc.event]
      rw [Instruction.write] at hread ⊢
      exact activation_hit (choice_hit (choice_right
        (reporting_miss (f := reportingFrame) rfl (reader_comment_miss _ (by omega) (by simp)))
        (reporting_hit rfl hread)))

theorem Misc.ends (m : Misc) (rest : List Char) : Ends isBlank (m.write ++ rest) := by
  cases m <;> exact ends_cons (c := '<') (by decide)

/-- Comments, instructions and blanks are read one by one. -/
theorem misc_read {k : Nat} (hk : 3 ≤ k) (around : Interspersed isBlank Misc)
    (hrest : Ends isBlank rest)
    (hmiss : ∀ u : Receiver σ,
      reporting (reader k) "Misc" rest reportingFrame u = .miss reportingFrame u)
    (hu : u.isBusy = false) :
    star nothing (reporting (reader k) "Misc") (around.flatMap id Misc.write ++ rest) reportingFrame
      u = .hit rest reportingFrame (u.takeAll (miscEvents around)) := by
  have hrun (run : Run isBlank) (rest : List Char) (hrest : Ends isBlank rest) (u : Receiver σ) :
      iterate (reporting (reader k) "Misc") (run.chars ++ rest) reportingFrame u =
        iterate (reporting (reader k) "Misc") rest reportingFrame u :=
    iterate_run (fun hne => reporting_misc_blanks (by omega) ⟨run, hne⟩ hrest u) fun _ => ⟨rfl, rfl⟩
  rw [star_nothing]
  induction around generalizing u with
  | last run => exact (hrun run rest hrest u).trans (iterate_miss (hmiss u))
  | more run m around ih =>
      have hpiece := reporting_misc hk m (around.flatMap id Misc.write ++ rest) hu
      simp only [Interspersed.flatMap, id_eq, List.append_assoc]
      rw [hrun run _ (m.ends _) u]
      exact yields_iterate m.length_write_pos (.of_hit hpiece) (.of_hit (ih hu))

theorem Document.reads {k : Nat} (d : Document) (hk : 2 * d.write.length + 6 ≤ k)
    (hu : u.isBusy = false) :
    (reader k "Document" [.processor] d.write u).Yields (firstFault? d.references) [] none
      (u.takeAll d.events) := by
  obtain ⟨k, rfl⟩ := Nat.exists_eq_add_of_le' (Nat.le_trans (Nat.le_add_left 6 _) hk)
  have hlength : d.root.write.length ≤ d.write.length := by
    simp only [write, List.length_append]
    omega
  have hroot : Ends isBlank (d.root.write ++ d.after.flatMap id Misc.write) := by
    obtain ⟨name, behind, hwritten⟩ := d.root.write_eq
    rw [hwritten]
    exact ends_cons (by decide)
  have hbefore := misc_read (k := k + 5) (by omega) d.before hroot
    (misc_miss_root (by omega) d.root _) (u := u.takeAll [.startDocument]) hu
  have hafter (u : Receiver σ) (hu : u.isBusy = false) :
      star nothing (reporting (reader (k + 5)) "Misc") (d.after.flatMap id Misc.write)
        reportingFrame u = .hit [] reportingFrame (u.takeAll (miscEvents d.after)) := by
    rw [← List.append_nil (d.after.flatMap id Misc.write)]
    exact misc_read (by omega) d.after (by rintro _ ⟨⟩)
      (reporting_misc_miss (by omega) (by simp) (by simp) (by rintro _ ⟨⟩)) hu
  have hevents : u.takeAll d.events = ((((u.takeAll [.startDocument]).takeAll
      (miscEvents d.before)).takeAll d.root.events).takeAll (miscEvents d.after)).takeAll
        [.endDocument] := by
    simp only [← Receiver.takeAll_append]
    simp [events]
  rw [hevents, show k + 6 = (k + 5) + 1 from rfl, reader_succ]
  refine yields_activation (yields_action ?_ fun text =>
    emit_of (f := reportingFrame) [.endDocument] rfl text hu)
  exact yields_hit_seq (action_any rfl fun text => emit_of [.startDocument] rfl text hu)
    (yields_hit_seq hbefore (yields_seq_hit (yields_expect (yields_reporting rfl
      (d.root.reads (by omega) _ hu))) (hafter _ hu)))

/-- A parse that gives the reason to raise as its own failed with an exception. -/
theorem exception_of_reason {failure : Parse.Failure} {reason : String}
    (h : failure.reason = .raised reason) :
    ∃ location, failure = .error (.exception reason location) := by
  unfold Parse.Failure.reason at h
  split at h <;> cases h
  exact ⟨_, rfl⟩

section

variable {o : Outcome (Option Value) Unit (Receiver σ)} {report : Parse.Report Unit (Receiver σ)}

/-- The report on an input that is read to its end. -/
theorem report_of_hit (h : o = .hit [] none u)
    (houtcome : report.outcome.mapError Parse.Failure.reason = o.concluded.1.map fun _ => ())
    (hworld : report.world = o.concluded.2) : report.outcome = .ok () ∧ report.world = u := by
  rw [h] at houtcome hworld
  refine ⟨?_, hworld⟩
  revert houtcome
  cases report.outcome with
  | ok v => exact fun _ => rfl
  | error e => exact fun h => by cases h

/-- The report on an input on which an action raises. -/
theorem report_of_raised {reason : String} (h : ∃ u', o = .stop (.raised reason) u')
    (houtcome : report.outcome.mapError Parse.Failure.reason = o.concluded.1.map fun _ => ()) :
    ∃ location, report.outcome = .error (.error (.exception reason location)) := by
  obtain ⟨u', rfl⟩ := h
  revert houtcome
  cases report.outcome with
  | ok v => exact fun h => by cases h
  | error e =>
      intro h
      obtain ⟨location, rfl⟩ := exception_of_reason (Except.error.inj h)
      exact ⟨location, rfl⟩

end

/-- A reference by a number, of however many digits, is read as the one character that has the number;
the events of a document hold it in place of the reference. Of the references whose number is that of a
surrogate or lies beyond the last code point, the first one makes the parse fail, and the message shows
its digits. -/
theorem parseDocument_references (document : Document) (config : Config)
    (hdepth : config.maxDepth = 0) (fileName : String) (receiver : Receiver σ)
    (hfree : receiver.isBusy = false)
    (hshort : config.maxInputLength = 0 ∨ document.write.length ≤ config.maxInputLength) :
    let report := parseDocument config (.ofList document.write) { fileName } receiver
    ((∀ r ∈ document.references, r.IsValid) →
      (∀ r ∈ document.references, r.character.toNat = r.codePoint) ∧
        report.outcome = .ok () ∧ report.world = receiver.takeAll document.events) ∧
    ∀ before r after, document.references = before ++ r :: after →
      (∀ r' ∈ before, r'.IsValid) → ¬ r.IsValid →
      ∃ location, report.outcome = .error (.error (.exception
        s!"'{String.ofList r.digits}' is not a valid character reference" location)) := by
  intro report
  obtain ⟨houtcome, hworld⟩ := parseDocument_denotes config (.ofList document.write) fileName
    receiver (by rwa [String.toList_ofList])
  rw [String.toList_ofList] at houtcome hworld
  have hlevels : 2 * document.write.length + 6 ≤ levels config document.write.length := by
    unfold levels
    rw [if_pos hdepth]
    simp only [UInt32.size]
    omega
  have hreads := document.reads hlevels hfree
  refine ⟨fun hvalid => ⟨fun r hr => ?_, ?_⟩, fun before r after hreferences hbefore hr => ?_⟩
  · rw [Reference.character, Char.toNat_ofNat]
    exact if_pos (hvalid r hr)
  · rw [firstFault?_valid hvalid] at hreads
    exact report_of_hit hreads houtcome hworld
  · rw [hreferences, firstFault?_invalid hbefore hr] at hreads
    exact report_of_raised hreads houtcome

/-- A document with a decimal reference in an attribute value and a hexadecimal one in a text, and one
with a reference to a surrogate. -/
theorem parseDocument_references_radices :
    (let report := parseDocument { maxDepth := 0 } "<a b='&#00233;'>x&#x1f600;</a>" {}
      Receiver.recorder
    report.outcome = .ok () ∧ report.world.state.toList =
      [.startDocument, .beginStartTag "a", .attr "b" "é", .endStartTag, .text "x😀", .endTag "a",
        .endDocument]) ∧
    ∃ location, (parseDocument { maxDepth := 0 } "<a>&#xD800;</a>" {} Receiver.recorder).outcome =
      .error (.error (.exception "'D800' is not a valid character reference" location)) := by
  let name (c : Char) (h : isNameStart c) : Name :=
    ⟨.ofList [c], c, [], String.toList_ofList, h, List.forall_mem_nil _⟩
  let blank : SomeRun isBlank := ⟨⟨[' '], List.all_eq_true.1 rfl⟩, List.cons_ne_nil _ _⟩
  let accent : Reference :=
    .number .decimal ⟨⟨['0', '0', '2', '3', '3'], List.all_eq_true.1 rfl⟩, List.cons_ne_nil _ _⟩
  let smile : Reference :=
    .number .hexadecimal ⟨⟨['1', 'f', '6', '0', '0'], List.all_eq_true.1 rfl⟩, List.cons_ne_nil _ _⟩
  let surrogate : Reference :=
    .number .hexadecimal ⟨⟨['D', '8', '0', '0'], List.all_eq_true.1 rfl⟩, List.cons_ne_nil _ _⟩
  let accented : Attribute :=
    ⟨blank, name 'b' rfl, .nil, .nil, .single, .more .nil accent (.last .nil)⟩
  let good : Document := ⟨.last .nil, .element ⟨name 'a' rfl, [accented], .nil⟩
    (.piece ⟨['x'], List.all_eq_true.1 rfl⟩ (.reference smile) (.last .nil)) .nil,
    .last .nil⟩
  let bad : Document := ⟨.last .nil, .element ⟨name 'a' rfl, [], .nil⟩
    (.piece .nil (.reference surrogate) (.last .nil)) .nil, .last .nil⟩
  refine ⟨?_, ?_⟩
  · have hwritten : String.ofList good.write = "<a b='&#00233;'>x&#x1f600;</a>" := by decide +kernel
    have hvalid : ∀ r ∈ good.references, r.IsValid := by decide +kernel
    have hevents : (Receiver.recorder.takeAll good.events).state.toList =
        [.startDocument, .beginStartTag "a", .attr "b" "é", .endStartTag, .text "x😀", .endTag "a",
          .endDocument] := by decide +kernel
    rw [← hwritten, ← hevents]
    obtain ⟨-, houtcome, hworld⟩ := (parseDocument_references good { maxDepth := 0 } rfl ""
      Receiver.recorder rfl (.inl rfl)).1 hvalid
    exact ⟨houtcome, by rw [hworld]⟩
  · have hwritten : String.ofList bad.write = "<a>&#xD800;</a>" := by decide +kernel
    rw [← hwritten]
    exact (parseDocument_references bad { maxDepth := 0 } rfl "" Receiver.recorder rfl
      (.inl rfl)).2 [] surrogate [] rfl (List.forall_mem_nil _) (by decide +kernel)

end AttrGrammar.Xml

import AttrGrammar.Proofs.Raising
import AttrGrammar.Proofs.XmlSyntax

/-! The rules that report, whoever receives the events, as long as the receiver is free: what their
actions report, and how runs of characters, comments, sections and instructions are read, or are found
not to stand here. -/

namespace AttrGrammar.Xml
open Text Peg
open Reader Context

variable {σ : Type} {rest : List Char} {u : Receiver σ}

/-! ### Frames and actions -/

/-- The frame of a rule that reports. -/
def reportingFrame : Frame Value := ⟨none, [("processor", .processor)], [], []⟩

/-- The frame of an element, with the name of its start tag once it has been read. -/
def elementFrame (tag : Option String) : Frame Value :=
  ⟨none, [("processor", .processor)], [("tag", tag.map .text)], []⟩

/-- The frame of a processing instruction, with its data once they have been read. -/
def instructionFrame (data : Option String) : Frame Value :=
  ⟨none, [("processor", .processor)], [("data", data.map .text)], []⟩

/-- A receiver that is free takes what a rule reports that has inherited the right to. -/
theorem emit_of (events : List Event) {f : Frame Value}
    (hf : f.inherited = [("processor", .processor)]) (text : List Char) (hu : u.isBusy = false) :
    emit events (.of f text u) = .of f text (u.takeAll events) := by
  obtain ⟨value, inherited, locals, instances⟩ := f
  obtain ⟨take, state, isBusy⟩ := u
  cases hf
  cases hu
  rfl

theorem emitMatched_of (event : String → Event) {f : Frame Value}
    (hf : f.inherited = [("processor", .processor)]) (text : List Char) (hu : u.isBusy = false) :
    emitMatched event (.of f text u) = .of f text (u.takeAll [event (.ofList text)]) := by
  rw [emitMatched, matched_of, emit_of _ hf text hu]

theorem emitAttribute_of (name value : String) (text : List Char) (hu : u.isBusy = false) :
    emitAttribute (.of ((reportingFrame.setInstance "Name" (.text name)).setInstance "AttributeValue"
      (.text value)) text u) = .of reportingFrame text (u.takeAll [.attr name value]) := by
  obtain ⟨take, state, isBusy⟩ := u
  cases hu
  rfl

theorem emitReference_of (t : String) (text : List Char) (hu : u.isBusy = false) :
    emitReference (.of (reportingFrame.setInstance "Reference" (.text t)) text u) =
      .of reportingFrame text (u.takeAll [.text t]) := by
  obtain ⟨take, state, isBusy⟩ := u
  cases hu
  rfl

theorem emitInstruction_of (target : String) (data : Option String) (text : List Char)
    (hu : u.isBusy = false) :
    emitInstruction (.of ((instructionFrame data).setInstance "Name" (.text target)) text u) =
      .of (instructionFrame none) text
        (u.takeAll [.processingInstruction target (data.getD "")]) := by
  obtain ⟨take, state, isBusy⟩ := u
  cases hu
  cases data <;> rfl

theorem beginElement_of (name : String) (text : List Char) (hu : u.isBusy = false) :
    beginElement (.of ((elementFrame none).setInstance "Name" (.text name)) text u) =
      .of (elementFrame (some name)) text (u.takeAll [.beginStartTag name]) := by
  obtain ⟨take, state, isBusy⟩ := u
  cases hu
  rfl

theorem closeEmpty_of (name : String) (text : List Char) (hu : u.isBusy = false) :
    closeEmpty (.of (elementFrame (some name)) text u) =
      .of (elementFrame none) text (u.takeAll [.endStartTag, .endTag name]) := by
  obtain ⟨take, state, isBusy⟩ := u
  cases hu
  rfl

theorem closeElement_of (name : String) (text : List Char) (hu : u.isBusy = false) :
    closeElement (.of ((elementFrame (some name)).setInstance "Name" (.text name)) text u) =
      .of (elementFrame none) text (u.takeAll [.endTag name]) := by
  obtain ⟨take, state, isBusy⟩ := u
  cases hu
  show (if name = name then _ else _) = _
  rw [if_pos rfl]
  rfl

/-! ### Calls and blanks -/

section

variable {call : Rules σ} {rule : String} {f : Frame Value} {w : List Char} {u' : Receiver σ}

/-- The right to report is handed on. -/
theorem forwards (hf : f.inherited = [("processor", .processor)]) :
    [forward "processor"].mapM (· f) = some [Value.processor] := by
  simp [forward, Frame.inherited?, hf]

/-- Calling a rule that reports, with the right to report handed on. -/
theorem reporting_hit (hf : f.inherited = [("processor", .processor)])
    (h : call rule [.processor] w u = .hit rest none u') :
    reporting call rule w f u = .hit rest f u' :=
  nonterminal_hit (v := none) (forwards hf) h

/-- The call of a rule that reports misses. -/
theorem reporting_miss (hf : f.inherited = [("processor", .processor)])
    (h : call rule [.processor] w u = .miss () u) : reporting call rule w f u = .miss f u :=
  nonterminal_miss (forwards hf) h

theorem yields_reporting {reason : Option String} (hf : f.inherited = [("processor", .processor)])
    (h : (call rule [.processor] w u).Yields reason rest none u') :
    (reporting call rule w f u).Yields reason rest f u' :=
  yields_nonterminal (forwards hf) h

end

theorem reading_gap {k : Nat} (hk : 1 ≤ k) (gap : SomeRun isBlank) (hrest : Ends isBlank rest)
    (f : Frame Value) (u : Receiver σ) :
    reading (reader k) "S" (gap.chars ++ rest) f u = .hit rest f u := by
  refine nonterminal_hit (v := none) rfl ?_
  rw [reader_blanks hk]
  exact readBlanks_run gap.valid gap.nonempty hrest []

/-- Blanks that may be missing. -/
theorem optional_run {k : Nat} (hk : 1 ≤ k) (run : Run isBlank) (hrest : Ends isBlank rest)
    (f : Frame Value) (u : Receiver σ) :
    optional (reading (reader k) "S") (run.chars ++ rest) f u = .hit rest f u := by
  by_cases hchars : run.chars = []
  · rw [hchars]
    exact optional_blanks hk hrest f u
  · exact optional_hit (reading_gap hk ⟨run, hchars⟩ hrest f u)

/-! ### Pieces of content -/

theorem reader_charData {k : Nat} (hk : 1 ≤ k) {front rest : List Char} (hfront : front ≠ [])
    (hplain : ∀ c ∈ front, isPlain false c) (hrest : Ends (isPlain false) rest)
    (hu : u.isBusy = false) :
    reader k "CharData" [.processor] (front ++ rest) u =
      .hit rest none (u.takeAll [.text (.ofList front)]) := by
  obtain ⟨k, rfl⟩ := Nat.exists_eq_add_of_le' hk
  rw [reader_succ]
  show readCharData _ _ _ = _
  unfold readCharData
  rw [plain_text]
  exact activation_hit (action_hit (plus_oneChar hplain hfront hrest _ _)
    (emitMatched_of .text rfl front hu))

theorem reader_charData_miss {k : Nat} (hk : 1 ≤ k) (hrest : Ends (isPlain false) rest)
    (args : List Value) (u : Receiver σ) : reader k "CharData" args rest u = .miss () u := by
  obtain ⟨k, rfl⟩ := Nat.exists_eq_add_of_le' hk
  rw [reader_succ]
  show readCharData _ _ _ = _
  unfold readCharData
  rw [plain_text]
  exact activation_miss (action_miss (plus_miss (oneChar_miss hrest _ u)))

/-- A mark of two characters does not begin within a text that it does not occur in, even with what
follows. -/
theorem no_mark_before {a b : Char} {front rest : List Char} (hoccurs : ¬ [a, b] <:+: front)
    (hlast : a = b → front.getLast? ≠ some a) (back : List Char) (hback : back <:+ front)
    (hne : back ≠ []) : ¬ [a, b] <+: back ++ ([a, b] ++ rest) := by
  intro hmark
  match back, hne with
  | [c], _ =>
      obtain ⟨rfl, rfl⟩ : a = c ∧ b = a := by simpa using hmark
      refine hlast rfl ?_
      obtain ⟨before, rfl⟩ := hback
      simp
  | c :: d :: more, _ =>
      obtain ⟨rfl, rfl⟩ : a = c ∧ b = d := by simpa using hmark
      exact hoccurs ((List.prefix_append [a, b] more).isInfix.trans hback.isInfix)

theorem reader_comment {k : Nat} (hk : 1 ≤ k) (t : CommentText) (rest : List Char)
    (hu : u.isBusy = false) :
    reader k "Comment" [.processor] ("<!--".toList ++ (t.text.toList ++ ("-->".toList ++ rest))) u =
      .hit rest none (u.takeAll [.comment t.text]) := by
  obtain ⟨k, rfl⟩ := Nat.exists_eq_add_of_le' hk
  rw [reader_succ]
  have htext := star_untilMark ['-', '-'] ('>' :: rest) (by simp)
    (no_mark_before t.valid.1 fun _ => t.valid.2) reportingFrame u
  have haction := action_hit htext (emitMatched_of .comment rfl t.text.toList hu)
  rw [String.ofList_toList] at haction
  exact activation_hit ((seq_hit (literal_hit _ _ _ _)).trans ((seq_hit haction).trans
    (expect_hit (literal_hit "-->".toList rest _ _))))

/-- The end of a section does not begin within a text that it does not occur in, even with what
follows, for its last character is not one of the others. -/
theorem no_end_before {front rest : List Char} (hoccurs : ¬ [']', ']', '>'] <:+: front)
    (back : List Char) (hback : back <:+ front) (hne : back ≠ []) :
    ¬ [']', ']', '>'] <+: back ++ ([']', ']', '>'] ++ rest) := by
  intro hmark
  match back, hne with
  | [c], _ => simp at hmark
  | [c, d], _ => simp at hmark
  | c :: d :: e :: more, _ =>
      obtain ⟨rfl, rfl, rfl⟩ : ']' = c ∧ ']' = d ∧ '>' = e := by simpa using hmark
      exact hoccurs ((List.prefix_append [']', ']', '>'] more).isInfix.trans hback.isInfix)

theorem reader_charSection {k : Nat} (hk : 1 ≤ k) (t : SectionText) (rest : List Char)
    (hu : u.isBusy = false) :
    reader k "CDataSection" [.processor]
      ("<![CDATA[".toList ++ (t.text.toList ++ ("]]>".toList ++ rest))) u =
        .hit rest none (u.takeAll [.text t.text]) := by
  obtain ⟨k, rfl⟩ := Nat.exists_eq_add_of_le' hk
  rw [reader_succ]
  have htext := star_untilMark [']', ']', '>'] rest (by simp) (no_end_before t.valid) reportingFrame u
  have haction := action_hit htext (emitMatched_of .text rfl t.text.toList hu)
  rw [String.ofList_toList] at haction
  exact activation_hit ((seq_hit (literal_hit _ _ _ _)).trans ((seq_hit haction).trans
    (expect_hit (literal_hit "]]>".toList rest _ _))))

/-- What stands behind the target of an instruction is read up to the end mark. -/
theorem optional_behind {k : Nat} (hk : 1 ≤ k) (i : Instruction) (rest : List Char)
    (u : Receiver σ) :
    let f (data : Option String) := (instructionFrame data).setInstance "Name" (.text i.target.text)
    optional ((reading (reader k) "S").seq
      (action (fun ctx => setLocalText "data" (matched ctx) ctx) (untilMark "?>")))
      (i.behind ++ ("?>".toList ++ rest)) (f none) u =
        .hit ("?>".toList ++ rest) (f (i.data.map (·.2.text))) u := by
  intro f
  obtain ⟨target, none | ⟨gap, data⟩⟩ := i
  · refine optional_miss (seq_miss (nonterminal_miss rfl ?_))
    rw [reader_blanks hk]
    exact readBlanks_miss (ends_cons (by decide)) []
  · have hblank : Ends isBlank (data.text.toList ++ ("?>".toList ++ rest)) := by
      intro c hc
      cases hdata : data.text.toList with
      | nil =>
          rw [hdata] at hc
          cases hc
          decide
      | cons d more =>
          rw [hdata] at hc
          exact data.valid.2 c (by rw [hdata]; exact hc)
    have htext := star_untilMark ['?', '>'] rest (by simp)
      (no_mark_before data.valid.1 fun h => absurd h (by decide)) (f none) u
    have hset : setLocalText "data" (matched (.of (f none) data.text.toList u))
        (.of (f none) data.text.toList u) = .of (f (some data.text)) data.text.toList u := by
      rw [matched_of, String.ofList_toList]
      rfl
    rw [Instruction.behind, List.append_assoc]
    exact optional_hit ((seq_hit (reading_gap hk gap hblank _ u)).trans (action_hit htext hset))

theorem reader_instruction {k : Nat} (hk : 2 ≤ k) (i : Instruction) (rest : List Char)
    (hu : u.isBusy = false) :
    reader k "ProcessingInstruction" [.processor] (i.write ++ rest) u =
      .hit rest none (u.takeAll [i.event]) := by
  obtain ⟨k, rfl⟩ := Nat.exists_eq_add_of_le' hk
  have hwritten : i.write ++ rest =
      "<?".toList ++ (i.target.text.toList ++ (i.behind ++ ("?>".toList ++ rest))) := by
    simp [Instruction.write]
  have hname : Ends isNameChar (i.behind ++ ("?>".toList ++ rest)) := by
    obtain ⟨target, none | ⟨gap, data⟩⟩ := i
    · exact ends_cons (c := '?') (by decide)
    · rw [Instruction.behind, List.append_assoc]
      exact gap.ends isBlank_nameChar _
  rw [hwritten, show k + 2 = (k + 1) + 1 from rfl, reader_succ]
  refine activation_hit (action_any ?_ fun text =>
    emitInstruction_of i.target.text (i.data.map (·.2.text)) text hu)
  exact (seq_hit (literal_hit _ _ _ _)).trans ((seq_hit (reading_name (by omega) i.target hname
    (instructionFrame none) _)).trans ((seq_hit (optional_behind (by omega) i rest _)).trans
    (expect_hit (literal_hit _ _ _ _))))

/-- What stands behind the attributes of an element with content. -/
theorem restOfElement_content {k : Nat} (hk : 1 ≤ k) (name : Name) (blanks : Run isBlank)
    (rest : List Char) {content : List Char} {reason : Option String} {u' : Receiver σ}
    (hu : u.isBusy = false) (hu' : u'.isBusy = false)
    (hcontent : ∀ text : List Char,
      (reader k "Content" [.processor] (content ++ '<' :: '/' :: text)
        (u.takeAll [.endStartTag])).Yields reason ('<' :: '/' :: text) none u') :
    (restOfElement (reader k) ('>' :: (content ++
      '<' :: '/' :: (name.text.toList ++ (blanks.chars ++ '>' :: rest))))
      (elementFrame (some name.text)) u).Yields reason rest (elementFrame none)
        (u'.takeAll [.endTag name.text]) := by
  have hopen (text : List Char) : action (emit [.endStartTag]) (oneChar (· == '>')) ('>' :: text)
      (elementFrame (some name.text)) u =
        .hit text (elementFrame (some name.text)) (u.takeAll [.endStartTag]) :=
    action_any (char_hit ..) fun text => emit_of _ rfl text hu
  have hname : Ends isNameChar (blanks.chars ++ '>' :: rest) :=
    blanks.ends isBlank_nameChar (ends_cons (by decide))
  have hclose : action closeElement (expect (reading (reader k) "Name"))
      (name.text.toList ++ (blanks.chars ++ '>' :: rest)) (elementFrame (some name.text)) u' =
        .hit (blanks.chars ++ '>' :: rest) (elementFrame none) (u'.takeAll [.endTag name.text]) :=
    action_any (expect_hit (reading_name hk name hname _ _)) fun text =>
      closeElement_of name.text text hu'
  refine yields_choice_right (action_miss (literal_miss (by simp) _ _)) (yields_hit_seq (hopen _)
    (yields_seq_hit (yields_reporting rfl (hcontent _)) (expect_hit ?_)))
  exact (seq_hit (literal_hit "</".toList _ _ _)).trans ((seq_hit hclose).trans
    ((seq_hit (optional_run hk blanks (ends_cons (by decide)) _ _)).trans (requiredChar_hit ..)))

/-! ### Where a piece of content does not stand -/

section

variable {k : Nat} (args : List Value)

theorem reader_comment_miss (hk : 1 ≤ k) (h : ¬ "<!--".toList <+: rest) :
    reader k "Comment" args rest u = .miss () u := by
  obtain ⟨k, rfl⟩ := Nat.exists_eq_add_of_le' hk
  rw [reader_succ]
  exact activation_miss (seq_miss (literal_miss h _ u))

theorem reader_cDataSection_miss (hk : 1 ≤ k) (h : ¬ "<![CDATA[".toList <+: rest) :
    reader k "CDataSection" args rest u = .miss () u := by
  obtain ⟨k, rfl⟩ := Nat.exists_eq_add_of_le' hk
  rw [reader_succ]
  exact activation_miss (seq_miss (literal_miss h _ u))

theorem reader_instruction_miss (hk : 1 ≤ k) (h : ¬ "<?".toList <+: rest) :
    reader k "ProcessingInstruction" args rest u = .miss () u := by
  obtain ⟨k, rfl⟩ := Nat.exists_eq_add_of_le' hk
  rw [reader_succ]
  exact activation_miss (action_miss (seq_miss (literal_miss h _ u)))

theorem reader_element_miss (hk : 1 ≤ k) (h : Ends (· == '<') rest) :
    reader k "Element" args rest u = .miss () u := by
  obtain ⟨k, rfl⟩ := Nat.exists_eq_add_of_le' hk
  rw [reader_succ]
  exact activation_miss (seq_miss (oneChar_miss h _ u))

/-- A bracket begins no element if no name stands behind it. -/
theorem reader_element_unnamed (hk : 2 ≤ k) (h : Ends isNameStart rest) :
    reader k "Element" args ('<' :: rest) u = .miss () u := by
  obtain ⟨k, rfl⟩ := Nat.exists_eq_add_of_le' hk
  rw [show k + 2 = (k + 1) + 1 from rfl, reader_succ]
  refine activation_miss ((seq_hit (char_hit ..)).trans (seq_miss (action_miss
    (nonterminal_miss rfl ?_))))
  rw [reader_name (by omega)]
  exact readName_miss h []

end

/-- Neither characters, nor an element, nor a reference stands where a bracket begins no element. -/
theorem markup_miss {k : Nat} (hk : 2 ≤ k) (hrest : Ends isNameStart rest) (u : Receiver σ) :
    (((reporting (reader k) "CharData").choice (reporting (reader k) "Element")).choice
      (action emitReference (reading (reader k) "Reference"))) ('<' :: rest) reportingFrame u =
        .miss reportingFrame u :=
  choice_right (choice_right
    (reporting_miss rfl (reader_charData_miss (by omega) (ends_cons (by decide)) _ u))
    (reporting_miss rfl (reader_element_unnamed _ hk hrest)))
    (action_miss (nonterminal_miss rfl (reader_reference_miss (by omega) (ends_cons (by decide)) u)))

/-- Nothing that belongs to the content of an element stands at an end tag. -/
theorem contentPiece_miss {k : Nat} (hk : 2 ≤ k) (text : List Char) (u : Receiver σ) :
    contentPiece (reader k) ('<' :: '/' :: text) reportingFrame u = .miss reportingFrame u :=
  choice_right (choice_right (choice_right (markup_miss hk (ends_cons (by decide)) u)
    (reporting_miss rfl (reader_cDataSection_miss _ (by omega) (by simp))))
    (reporting_miss rfl (reader_instruction_miss _ (by omega) (by simp))))
    (reporting_miss rfl (reader_comment_miss _ (by omega) (by simp)))

theorem contentPiece_element {k : Nat} {text : List Char} {reason : Option String}
    {u' : Receiver σ} (hk : 2 ≤ k)
    (h : (reader k "Element" [.processor] ('<' :: text) u).Yields reason rest none u') :
    (contentPiece (reader k) ('<' :: text) reportingFrame u).Yields reason rest reportingFrame u' := by
  have helement : (((reporting (reader k) "CharData").choice (reporting (reader k) "Element"))
      ('<' :: text) reportingFrame u).Yields reason rest reportingFrame u' :=
    yields_choice_right (reporting_miss rfl
      (reader_charData_miss (by omega) (ends_cons (by decide)) _ _)) (yields_reporting rfl h)
  exact yields_choice (yields_choice (yields_choice (yields_choice helement)))

theorem contentPiece_charSection {k : Nat} (hk : 2 ≤ k) (t : SectionText) (rest : List Char)
    (hu : u.isBusy = false) :
    contentPiece (reader k) ((Piece.charSection t).write ++ rest) reportingFrame u =
      .hit rest reportingFrame (u.takeAll [.text t.text]) := by
  have hwritten : (Piece.charSection t).write ++ rest =
      "<![CDATA[".toList ++ (t.text.toList ++ ("]]>".toList ++ rest)) := by
    simp [Piece.write]
  rw [hwritten]
  exact choice_hit (choice_hit (choice_right (markup_miss hk (ends_cons (by decide)) u)
    (reporting_hit rfl (reader_charSection (by omega) t rest hu))))

theorem contentPiece_misc {k : Nat} (hk : 2 ≤ k) (m : Misc) (rest : List Char)
    (hu : u.isBusy = false) :
    contentPiece (reader k) (m.write ++ rest) reportingFrame u =
      .hit rest reportingFrame (u.takeAll [m.event]) := by
  cases m with
  | comment t =>
      rw [Misc.write, List.append_assoc, List.append_assoc]
      exact choice_right (choice_right (choice_right (markup_miss hk (ends_cons (by decide)) _)
        (reporting_miss rfl (reader_cDataSection_miss _ (by omega) (by simp))))
        (reporting_miss rfl (reader_instruction_miss _ (by omega) (by simp))))
        (reporting_hit rfl (reader_comment (by omega) t rest hu))
  | instruction i =>
      have hread := reader_instruction (k := k) hk i rest hu
      rw [Misc.write, Misc.event]
      rw [Instruction.write] at hread ⊢
      exact choice_hit (choice_right (choice_right (markup_miss hk (ends_cons (by decide)) _)
        (reporting_miss rfl (reader_cDataSection_miss _ (by omega) (by simp))))
        (reporting_hit rfl hread))

/-- No misc stands here. -/
theorem reporting_misc_miss {k : Nat} (hk : 2 ≤ k) (hcomment : ¬ "<!--".toList <+: rest)
    (hinstruction : ¬ "<?".toList <+: rest) (hblank : Ends isBlank rest) (u : Receiver σ) :
    reporting (reader k) "Misc" rest reportingFrame u = .miss reportingFrame u := by
  obtain ⟨k, rfl⟩ := Nat.exists_eq_add_of_le' hk
  refine reporting_miss rfl ?_
  rw [show k + 2 = (k + 1) + 1 from rfl, reader_succ]
  refine activation_miss (choice_right (choice_right
    (reporting_miss rfl (reader_comment_miss _ (by omega) hcomment))
    (reporting_miss rfl (reader_instruction_miss _ (by omega) hinstruction)))
    (nonterminal_miss rfl ?_))
  rw [reader_blanks (by omega)]
  exact readBlanks_miss hblank []

end AttrGrammar.Xml

import AttrGrammar.Proofs.XmlDocuments

/-! What is written of a tree is read back as its events. The way in which a tree is written is one of
those in which documents are: the characters that cannot stand for themselves are references by name,
the quotes are double, and there are no more blanks than there have to be. So the tree is read like any
document. A text comes in several pieces, cut at its references, and the recorder puts them together
again. -/

namespace AttrGrammar.Xml
open Text Peg
open Reader Context

/-! ### Reporting to a recorder -/

/-- A recorder that has recorded something already. -/
def recording (r : Recording) : Receiver Recording := ⟨Recording.record, r, false⟩

def recordAll (events : List Event) (r : Recording) : Recording :=
  events.foldl (fun r e => r.record e) r

theorem recordAll_append (front back : List Event) (r : Recording) :
    recordAll (front ++ back) r = recordAll back (recordAll front r) := List.foldl_append

theorem record_cons (e : Event) (events : List Event) (r : Recording) :
    recordAll (e :: events) r = recordAll events (r.record e) := rfl

/-- The recorder puts the pieces of a text together. -/
theorem record_runs (front back : List Char) (r : Recording) :
    recordAll (runEvents back) (recordAll (runEvents front) r) =
      recordAll (runEvents (front ++ back)) r := by
  by_cases hfront : front = []
  · rw [hfront]
    rfl
  by_cases hback : back = []
  · rw [hback, List.append_nil]
    rfl
  have hmerge (t t' : String) : (r.record (.text t)).record (.text t') =
      r.record (.text (t ++ t')) := by
    obtain ⟨events⟩ := r
    cases events with
    | nil => rfl
    | cons e events => cases e <;> simp [Recording.record, String.append_assoc]
  rw [runEvents, runEvents, runEvents, if_neg hfront, if_neg hback,
    if_neg (by simp [hfront]), String.ofList_append]
  exact hmerge _ _

/-! ### Texts as runs and references -/

/-- The reference to a character that cannot stand for itself. -/
def entityReference (c : Char) : Reference :=
  if c = '&' then .entity ⟨"amp", 'a', ['m', 'p'], rfl, rfl, List.all_eq_true.1 rfl⟩ '&' rfl
  else if c = '<' then .entity ⟨"lt", 'l', ['t'], rfl, rfl, List.all_eq_true.1 rfl⟩ '<' rfl
  else .entity ⟨"quot", 'q', ['u', 'o', 't'], rfl, rfl, List.all_eq_true.1 rfl⟩ '"' rfl

theorem entityReference_spec {quoted : Bool} {c : Char} (h : isPlain quoted c = false) :
    (entityReference c).write = (spelling quoted c).toList ∧ (entityReference c).character = c ∧
      (entityReference c).IsValid := by
  have hc : c = '&' ∨ c = '<' ∨ quoted = true ∧ c = '"' := by
    have hnot := mt isPlain_iff.2 (Bool.eq_false_iff.1 h)
    tauto
  rcases hc with rfl | rfl | ⟨rfl, rfl⟩
  · cases quoted <;> exact ⟨by decide, rfl, by decide⟩
  · cases quoted <;> exact ⟨by decide, rfl, by decide⟩
  · exact ⟨by decide, rfl, by decide⟩

/-- One more character in front of the first run. -/
def Interspersed.push {accept : Char → Bool} {α : Type} (c : Char) (h : accept c) :
    Interspersed accept α → Interspersed accept α
  | last run => last (run.cons c h)
  | more run piece rest => more (run.cons c h) piece rest

theorem Interspersed.flatMap_push {accept : Char → Bool} {α : Type} {c : Char} (h : accept c)
    (pieces : Interspersed accept α) (ofPiece : α → List Char) :
    (pieces.push c h).flatMap id ofPiece = c :: pieces.flatMap id ofPiece := by
  cases pieces <;> rfl

/-- A text in which only characters of a kind stand for themselves. -/
def spelled (accept : Char → Bool) : List Char → Interspersed accept Reference
  | [] => .last .nil
  | c :: t =>
    if h : accept c then (spelled accept t).push c h
    else .more .nil (entityReference c) (spelled accept t)

section

variable {accept : Char → Bool} {quoted : Bool} (haccept : ∀ c, accept c = isPlain quoted c)

include haccept

theorem write_spelled (t : List Char) :
    (spelled accept t).flatMap id Reference.write =
      t.flatMap fun c => (spelling quoted c).toList := by
  induction t with
  | nil => rfl
  | cons c t ih =>
      rw [spelled, List.flatMap_cons, ← ih]
      split
      · next h =>
        rw [Interspersed.flatMap_push, spelling_plain (haccept c ▸ h)]
        rfl
      · next h =>
        rw [haccept, Bool.not_eq_true] at h
        rw [← (entityReference_spec h).1]
        rfl

theorem text_spelled (t : List Char) :
    (spelled accept t).flatMap id (fun r => [r.character]) = t := by
  induction t with
  | nil => rfl
  | cons c t ih =>
      rw [spelled]
      split
      · rw [Interspersed.flatMap_push, ih]
      · next h =>
        rw [haccept, Bool.not_eq_true] at h
        show (entityReference c).character :: (spelled accept t).flatMap id _ = _
        rw [(entityReference_spec h).2.1, ih]

theorem valid_spelled (t : List Char) :
    ∀ r ∈ (spelled accept t).flatMap (fun _ => []) fun r => [r], r.IsValid := by
  induction t with
  | nil => exact List.forall_mem_nil _
  | cons c t ih =>
      rw [spelled]
      split
      · revert ih
        cases spelled accept t <;> exact id
      · next h =>
        rw [haccept, Bool.not_eq_true] at h
        exact List.forall_mem_cons.2 ⟨(entityReference_spec h).2.2, ih⟩

end

/-! ### Trees as documents -/

/-- The blank in front of an attribute or of the data of an instruction. -/
def oneBlank : SomeRun isBlank := ⟨⟨[' '], List.all_eq_true.1 rfl⟩, List.cons_ne_nil _ _⟩

theorem isPlain_double (c : Char) : Quote.double.isPlain c = isPlain true c := by
  rw [Quote.isPlain, Bool.eq_iff_iff, Bool.and_eq_true, isPlain_iff, isPlain_iff]
  simp [Quote.mark, and_assoc]

def attributeOf (a : Name × String) : Attribute :=
  ⟨oneBlank, a.1, .nil, .nil, .double, spelled _ a.2.toList⟩

theorem write_attributeOf (a : Name × String) :
    (attributeOf a).write = (serializeAttribute a.1 a.2).toList := by
  simp [attributeOf, Attribute.write, Attribute.body, AttributeValue.write, serializeAttribute,
    oneBlank, Run.nil, Quote.mark, write_spelled isPlain_double, escape]

theorem event_attributeOf (a : Name × String) : (attributeOf a).event = .attr a.1.text a.2 := by
  rw [Attribute.event, AttributeValue.text]
  show Event.attr a.1.text (.ofList ((spelled Quote.double.isPlain a.2.toList).flatMap id _)) = _
  rw [text_spelled isPlain_double, String.ofList_toList]

/-- The start tag of an element. -/
def tagOf (name : Name) (attributes : List (Name × String)) : Tag :=
  ⟨name, attributes.map attributeOf, .nil⟩

@[simp]
theorem name_tagOf (name : Name) (attributes : List (Name × String)) :
    (tagOf name attributes).name = name := rfl

theorem write_tagOf (name : Name) (attributes : List (Name × String)) :
    (tagOf name attributes).write =
      '<' :: (name.text.toList ++ (serializeAttributes attributes).toList) := by
  have hattributes : (attributes.map attributeOf).flatMap Attribute.write =
      (serializeAttributes attributes).toList := by
    induction attributes with
    | nil => rfl
    | cons a attributes ih =>
        rw [List.map_cons, List.flatMap_cons, ih, write_attributeOf, serializeAttributes,
          String.toList_append]
  rw [Tag.write, tagOf, hattributes]
  simp [Run.nil]

theorem valid_tagOf (name : Name) (attributes : List (Name × String)) :
    ∀ r ∈ (tagOf name attributes).references, r.IsValid := by
  intro r hr
  obtain ⟨a, ha, hr⟩ := List.mem_flatMap.1 hr
  obtain ⟨a, -, rfl⟩ := List.mem_map.1 ha
  exact valid_spelled isPlain_double _ r hr

/-- An element is recorded alike if its content is. -/
theorem record_element (name : Name) (attributes : List (Name × String)) {children : List Node}
    {content : List Event} (h : ∀ r, recordAll content r = recordAll (eventsOfAll children) r)
    (r : Recording) :
    recordAll ((tagOf name attributes).elementEvents content) r =
      recordAll (Node.element name attributes children).events r := by
  have hattributes : (attributes.map attributeOf).map Attribute.event =
      attributes.map fun a => .attr a.1.text a.2 := by
    rw [List.map_map]
    exact List.map_congr_left fun a _ => event_attributeOf a
  rw [Tag.elementEvents, Tag.events, tagOf, hattributes, Node.events, recordAll_append,
    recordAll_append, recordAll_append, record_cons, record_cons, recordAll_append, h]
  rfl

/-- A node that is an instruction, as it is written. -/
def instructionOf (target : Name) (data : InstructionData) : Instruction :=
  ⟨target, if data.text = "" then none else some (oneBlank, data)⟩

theorem write_instructionOf (target : Name) (data : InstructionData) :
    (instructionOf target data).write = (Node.instruction target data).serialize.toList := by
  unfold Node.serialize instructionOf Instruction.write Instruction.behind
  split <;> simp [oneBlank, *]

theorem event_instructionOf (target : Name) (data : InstructionData) :
    (instructionOf target data).event = .processingInstruction target.text data.text := by
  unfold instructionOf Instruction.event
  split <;> simp [*]

/-- A text in front of some content. -/
def Content.prepend (content : Content) : Interspersed (isPlain false) Reference → Content
  | .last run =>
    match content with
    | last first => last (run.append first)
    | piece first p rest => piece (run.append first) p rest
    | element first tag inner blanks rest => element (run.append first) tag inner blanks rest
  | .more run r pieces => piece run (.reference r) (content.prepend pieces)

namespace Content

variable (content : Content) (pieces : Interspersed (isPlain false) Reference)

theorem write_prepend :
    (content.prepend pieces).write = pieces.flatMap id Reference.write ++ content.write := by
  induction pieces with
  | last run => cases content <;> simp [prepend, write, Interspersed.flatMap, Run.append]
  | more run r pieces ih => simp [prepend, write, Interspersed.flatMap, Piece.write, ih]

theorem references_prepend :
    (content.prepend pieces).references =
      pieces.flatMap (fun _ => []) (fun r => [r]) ++ content.references := by
  induction pieces with
  | last run => cases content <;> simp [prepend, references, Interspersed.flatMap]
  | more run r pieces ih => simp [prepend, references, Interspersed.flatMap, Piece.references, ih]

theorem record_prepend (r : Recording) :
    recordAll (content.prepend pieces).events r =
      recordAll content.events
        (recordAll (runEvents (pieces.flatMap id fun r => [r.character])) r) := by
  induction pieces generalizing r with
  | last run =>
      cases content <;>
        simp only [prepend, events, Interspersed.flatMap, Run.append, recordAll_append, record_runs,
          id_eq]
  | more run ref pieces ih =>
      have hcharacter : recordAll [.text ref.character.toString] (recordAll (runEvents run.chars) r) =
          recordAll (runEvents (run.chars ++ [ref.character])) r := by
        rw [← record_runs]
        rfl
      simp only [prepend, events, Piece.events, Interspersed.flatMap, recordAll_append, id_eq]
      rw [hcharacter, ih, record_runs, List.append_assoc]

end Content

mutual

/-- A node in front of some content. -/
def Node.onto : Node → Content → Content
  | .text t, rest => rest.prepend (spelled _ t.text.toList)
  | .element name attributes children, rest =>
    .element .nil (tagOf name attributes) (contentOf children) .nil rest
  | .comment t, rest => .piece .nil (.misc (.comment t)) rest
  | .instruction target data, rest => .piece .nil (.misc (.instruction (instructionOf target data))) rest

/-- Nodes as the content of an element. -/
def contentOf : List Node → Content
  | [] => .last .nil
  | n :: rest => n.onto (contentOf rest)

end

mutual

theorem write_onto (n : Node) (rest : Content) :
    (n.onto rest).write = n.serialize.toList ++ rest.write := by
  cases n with
  | text t =>
      rw [Node.onto, Content.write_prepend, write_spelled fun _ => rfl]
      simp [Node.serialize, escape]
  | element name attributes children =>
      simp [Node.onto, Content.write, Tag.writeElement, Node.serialize, write_tagOf, Run.nil,
        write_contentOf children]
  | comment t => simp [Node.onto, Content.write, Piece.write, Misc.write, Node.serialize, Run.nil]
  | instruction target data =>
      simp [Node.onto, Content.write, Piece.write, Misc.write, write_instructionOf, Run.nil]

theorem write_contentOf (nodes : List Node) :
    (contentOf nodes).write = (serializeAll nodes).toList := by
  cases nodes with
  | nil => rfl
  | cons n nodes =>
      rw [contentOf, write_onto n, write_contentOf nodes, serializeAll, String.toList_append]

end

mutual

theorem valid_onto (n : Node) {rest : Content} (hrest : ∀ r ∈ rest.references, r.IsValid) :
    ∀ r ∈ (n.onto rest).references, r.IsValid := by
  cases n with
  | text t =>
      rw [Node.onto, Content.references_prepend]
      exact List.forall_mem_append.2 ⟨valid_spelled (fun _ => rfl) _, hrest⟩
  | element name attributes children =>
      exact List.forall_mem_append.2 ⟨List.forall_mem_append.2
        ⟨valid_tagOf name attributes, valid_contentOf children⟩, hrest⟩
  | comment t => exact hrest
  | instruction target data => exact hrest

theorem valid_contentOf (nodes : List Node) : ∀ r ∈ (contentOf nodes).references, r.IsValid := by
  cases nodes with
  | nil => exact List.forall_mem_nil _
  | cons n nodes => exact valid_onto n (valid_contentOf nodes)

end

mutual

/-- Recorded together, the pieces of texts are what they are pieces of. -/
theorem record_onto (n : Node) (rest : Content) (r : Recording) :
    recordAll (n.onto rest).events r = recordAll rest.events (recordAll n.events r) := by
  cases n with
  | text t =>
      have hne : t.text.toList ≠ [] := mt String.toList_eq_nil_iff.1 t.valid
      rw [Node.onto, Content.record_prepend, text_spelled fun _ => rfl, runEvents, if_neg hne,
        String.ofList_toList]
      rfl
  | element name attributes children =>
      rw [Node.onto, Content.events, recordAll_append, recordAll_append,
        record_element name attributes (record_contentOf children)]
      rfl
  | comment t => rfl
  | instruction target data =>
      rw [Node.events, ← event_instructionOf]
      rfl

theorem record_contentOf (nodes : List Node) (r : Recording) :
    recordAll (contentOf nodes).events r = recordAll (eventsOfAll nodes) r := by
  cases nodes with
  | nil => rfl
  | cons n nodes =>
      rw [contentOf, record_onto n, record_contentOf nodes, eventsOfAll, recordAll_append]

end

/-! ### Documents -/

def Event.isText : Event → Bool
  | .text _ => true
  | _ => false

/-- The last event that was recorded is a text. -/
def Recording.endsInText (r : Recording) : Bool := r.newestFirst.head?.any Event.isText

/-- Events are recorded as they are, unless a text comes behind another text. -/
theorem record_apart {e : Event} {r : Recording} (h : ¬ (e.isText ∧ r.endsInText)) :
    r.record e = ⟨e :: r.newestFirst⟩ := by
  obtain ⟨events⟩ := r
  cases e with
  | text t =>
      cases events with
      | nil => rfl
      | cons last events =>
          cases last with
          | text t' => exact absurd ⟨rfl, rfl⟩ h
          | _ => rfl
  | _ => cases events <;> rfl

theorem recordAll_apart {events : List Event} (h : ∀ e ∈ events, e.isText = false) (r : Recording) :
    recordAll events r = ⟨events.reverse ++ r.newestFirst⟩ := by
  induction events generalizing r with
  | nil => rfl
  | cons e events ih =>
      obtain ⟨he, hevents⟩ := List.forall_mem_cons.1 h
      show recordAll events (r.record e) = _
      rw [ih hevents, record_apart (by simp [he])]
      simp

/-- The events of a node other than a text do not end in a text. -/
theorem endsInText_node {n : Node} (h : n.isText = false) (before : List Event) :
    (⟨n.events.reverse ++ before⟩ : Recording).endsInText = false := by
  cases n with
  | text t => cases h
  | element name attributes children => simp [Node.events, Recording.endsInText, Event.isText]
  | comment t => rfl
  | instruction target data => rfl

mutual

/-- The events of a tree in which texts are apart are recorded as they are. -/
theorem record_node (n : Node) (hapart : n.TextsApart) (r : Recording)
    (hr : ¬ (n.isText ∧ r.endsInText)) :
    recordAll n.events r = ⟨n.events.reverse ++ r.newestFirst⟩ := by
  cases n with
  | text t => exact record_apart hr
  | element name attributes children =>
      have hstart : ∀ e ∈ Event.beginStartTag name.text ::
          attributes.map (fun a => .attr a.1.text a.2) ++ [.endStartTag], e.isText = false := by
        rintro e he
        simp only [List.mem_append, List.mem_cons, List.mem_map, List.not_mem_nil, or_false] at he
        rcases he with (rfl | ⟨a, -, rfl⟩) | rfl <;> rfl
      have hevents : (Node.element name attributes children).events =
          (Event.beginStartTag name.text :: attributes.map (fun a => .attr a.1.text a.2) ++
            [.endStartTag]) ++ (eventsOfAll children ++ [.endTag name.text]) := by
        simp [Node.events]
      rw [hevents, recordAll_append, recordAll_apart hstart, recordAll_append,
        record_nodes children hapart _ (by simp [Recording.endsInText, Event.isText]),
        recordAll_apart (by simp [Event.isText])]
      simp
  | comment t => exact record_apart (e := .comment t.text) (by simp [Event.isText])
  | instruction target data =>
      exact record_apart (e := .processingInstruction target.text data.text) (by simp [Event.isText])

theorem record_nodes (nodes : List Node) (hapart : AllTextsApart nodes) (r : Recording)
    (hr : ¬ (startsWithText nodes ∧ r.endsInText)) :
    recordAll (eventsOfAll nodes) r = ⟨(eventsOfAll nodes).reverse ++ r.newestFirst⟩ := by
  cases nodes with
  | nil => rfl
  | cons n nodes =>
      obtain ⟨hnode, hborder, hnodes⟩ := hapart
      have hnext : ¬ (startsWithText nodes ∧
          (⟨n.events.reverse ++ r.newestFirst⟩ : Recording).endsInText) := by
        rintro ⟨hstarts, hends⟩
        cases htext : n.isText with
        | true => exact hborder ⟨htext, hstarts⟩
        | false => simp [endsInText_node htext] at hends
      rw [eventsOfAll, recordAll_append, record_node n hnode r hr, record_nodes nodes hnodes _ hnext]
      simp

end

theorem recordAll_document {root : Node} (hapart : root.TextsApart) :
    (recordAll (documentEvents root) .empty).toList = documentEvents root := by
  have hroot := record_node root hapart (Recording.empty.record .startDocument)
    (by simp [Recording.endsInText, Recording.record, Recording.empty, Event.isText])
  show (recordAll (.startDocument :: (root.events ++ [.endDocument])) .empty).toList = _
  rw [← List.singleton_append, recordAll_append, recordAll_append]
  show (recordAll [.endDocument] (recordAll root.events (Recording.empty.record .startDocument))).toList = _
  rw [hroot, recordAll_apart (by simp [Event.isText])]
  simp [Recording.toList, Recording.record, Recording.empty, documentEvents]

theorem reader_document {k : Nat} (name : Name) (attributes : List (Name × String))
    (children : List Node)
    (hk : 2 * (Node.element name attributes children).serialize.toList.length + 6 ≤ k)
    (r : Recording) :
    let root := Node.element name attributes children
    reader k "Document" [.processor] root.serialize.toList (recording r) =
      .hit [] none (recording (recordAll (documentEvents root) r)) := by
  intro root
  let d : Document := ⟨.last .nil, .element (tagOf name attributes) (contentOf children) .nil,
    .last .nil⟩
  have hwrite : d.write = root.serialize.toList := by
    simp [d, Document.write, Interspersed.flatMap, Root.write, root, Node.serialize, Run.nil,
      Tag.writeElement, write_tagOf, write_contentOf]
  have hvalid : ∀ r ∈ d.references, r.IsValid :=
    List.forall_mem_append.2 ⟨valid_tagOf name attributes, valid_contentOf children⟩
  have hread := d.reads (u := recording r) (k := k) (by rwa [hwrite]) rfl
  rw [firstFault?_valid hvalid, hwrite] at hread
  have hevents : recordAll d.events r = recordAll (documentEvents root) r := by
    show recordAll (.startDocument :: ((tagOf name attributes).elementEvents
      (contentOf children).events ++ [.endDocument])) r = _
    rw [documentEvents, List.cons_append, record_cons, record_cons, recordAll_append,
      recordAll_append, record_element name attributes (record_contentOf children)]
  rw [← hevents]
  exact hread

/-- Parsing what is written of a document tree reports the events of the tree. -/
theorem parseDocument_serialize (name : Name) (attributes : List (Name × String))
    (children : List Node) (hapart : AllTextsApart children) (config : Config)
    (hdepth : config.maxDepth = 0) (fileName : String) :
    let root := Node.element name attributes children
    (config.maxInputLength = 0 ∨ root.serialize.length ≤ config.maxInputLength) →
    let report := parseDocument config root.serialize { fileName } Receiver.recorder
    report.outcome = .ok () ∧ report.world.state.toList = documentEvents root := by
  intro root hshort report
  obtain ⟨houtcome, hworld⟩ := parseDocument_denotes config root.serialize fileName
    Receiver.recorder (by rwa [String.length_toList])
  have hlevels : 2 * root.serialize.toList.length + 6 ≤ levels config root.serialize.toList.length := by
    unfold levels
    rw [if_pos hdepth]
    omega
  have hread : reader (levels config root.serialize.toList.length) "Document" [.processor]
      root.serialize.toList Receiver.recorder =
        .hit [] none (recording (recordAll (documentEvents root) .empty)) :=
    reader_document name attributes children hlevels .empty
  rw [hread] at houtcome hworld
  refine ⟨?_, ?_⟩
  · revert houtcome
    show report.outcome.mapError _ = .ok () → _
    cases report.outcome with
    | ok v => exact fun _ => rfl
    | error e => exact fun h => by cases h
  · rw [show report.world = _ from hworld]
    exact recordAll_document hapart

/-- A document with an attribute, a text, an element, another text and a comment. -/
theorem parseDocument_serialize_mixed :
    let report := parseDocument { maxDepth := 0 }
      "<a b=\"1&lt;&quot;2\">x&amp;y<c></c>z<!--d--></a>" {} Receiver.recorder
    report.outcome = .ok () ∧ report.world.state.toList =
      [.startDocument, .beginStartTag "a", .attr "b" "1<\"2", .endStartTag, .text "x&y",
        .beginStartTag "c", .endStartTag, .endTag "c", .text "z", .comment "d", .endTag "a",
        .endDocument] := by
  have hwritten : (Node.element ⟨"a", 'a', [], rfl, rfl, List.forall_mem_nil _⟩
      [(⟨"b", 'b', [], rfl, rfl, List.forall_mem_nil _⟩, "1<\"2")]
      [.text ⟨"x&y", by decide⟩,
        .element ⟨"c", 'c', [], rfl, rfl, List.forall_mem_nil _⟩ [] [], .text ⟨"z", by decide⟩,
        .comment ⟨"d", by decide⟩]).serialize =
          "<a b=\"1&lt;&quot;2\">x&amp;y<c></c>z<!--d--></a>" := by rfl
  rw [← hwritten]
  exact parseDocument_serialize _ _ _ (by simp [AllTextsApart, Node.TextsApart, Node.isText,
    startsWithText]) { maxDepth := 0 } rfl "" (.inl rfl)

end AttrGrammar.Xml

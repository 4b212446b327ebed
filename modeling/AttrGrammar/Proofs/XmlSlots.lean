import AttrGrammar.Proofs.Moves
import AttrGrammar.Proofs.WholeProvision
import AttrGrammar.Proofs.XmlReading

/-! The slots that the grammar of documents uses. Rules that report events inherit the right to do so
from one another. A name is taken where it was read, the name of a start tag where the element ends,
and each reference by the action behind it; so no action rejects a match, and none finds an end tag
without a start tag. -/

namespace AttrGrammar.Xml
open Text Peg Parse

variable {σ : Type}

/-- What a value is, as the rules declare it. -/
def Value.type : Value → String
  | processor => "Processor"
  | text _ => "Text"

theorem Value.type_eq_text {v : Value} : v.type = "Text" ↔ ∃ t, v = text t := by
  cases v <;> simp [type]

theorem Value.type_eq_processor {v : Value} : v.type = "Processor" ↔ v = processor := by
  cases v <;> simp [type]

/-! ### What actions do with the slots -/

/-- Reporting relies on the right to. -/
def report : Move := .need (.inherited "processor") "Processor"

def moves : String → List (String × List Move)
  | "Document" => [("start", [report]), ("end", [report])]
  | "Element" =>
    [("begin", [.take (.returned "Name") "Text", .fill (.localVar "tag") "Text", report]),
     ("empty", [.take (.localVar "tag") "Text", report]), ("open", [report]),
     ("close", [.take (.returned "Name") "Text", .take (.localVar "tag") "Text", report])]
  | "Attribute" =>
    [("add", [.take (.returned "Name") "Text", .take (.returned "AttributeValue") "Text", report])]
  | "AttributeValue" =>
    [("open", [.fill .value "Text"]), ("chars", []),
     ("reference", [.take (.returned "Reference") "Text"])]
  | "Content" => [("reference", [.take (.returned "Reference") "Text", report])]
  | "CharData" | "CDataSection" | "Comment" => [("text", [report])]
  | "Reference" =>
    [("hex", [.fill .value "Text"]), ("decimal", [.fill .value "Text"]),
     ("entity", [.take (.returned "Name") "Text", .fill .value "Text"])]
  | "ProcessingInstruction" =>
    [("data", [.fill (.localVar "data") "Text"]),
     ("emit", [.take (.returned "Name") "Text", .clear (.localVar "data"), report])]
  | "Name" => [("value", [.fill .value "Text"])]
  | _ => []

/-- Why an action may end a parse, given the text it was run on and whether the receiver of the events
is busy. -/
inductive Raises (isBusy : Bool) : String → Slice → Prop
  | busy (text : Slice) (hbusy : isBusy = true) :
    Raises isBusy "xml processor is already in use" text
  | mismatch (found expected : String) (text : Slice) (hne : expected ≠ found) :
    Raises isBusy s!"end tag '{found}' does not match start tag '{expected}'" text
  | entity (name : String) (text : Slice) (hundefined : entities.lookup name = none) :
    Raises isBusy s!"undefined entity '&{name};'" text
  | character (base : Nat) (text : Slice)
    (hinvalid : charOfNumber? (numeral base text.toList) = none) :
    Raises isBusy s!"'{text}' is not a valid character reference" text

/-- No right to report is missing, and no start tag. -/
theorem Raises.reason_ne {isBusy : Bool} {reason : String} {text : Slice}
    (h : Raises isBusy reason text) :
    reason ≠ "no xml processor in scope" ∧
      ∀ found : String, reason ≠ s!"end tag '{found}' has no start tag" := by
  have hfirst {s t : String} (hne : s.toList.head? ≠ t.toList.head?) : s ≠ t :=
    fun heq => hne (by rw [heq])
  have hlast (s found : String) (hne : s.toList.getLast? ≠ some 'g') :
      s ≠ s!"end tag '{found}' has no start tag" := by
    rintro rfl
    exact hne (by simp [ToString.toString, List.getLast?_cons])
  cases h with
  | busy text hbusy => exact ⟨by decide, fun found => hlast _ found (by simp)⟩
  | mismatch found expected text hne =>
      exact ⟨hfirst (by simp [ToString.toString]), fun found => hlast _ found
        (by simp [ToString.toString, List.getLast?_cons])⟩
  | entity name text hundefined =>
      exact ⟨hfirst (by simp [ToString.toString]), fun found => hlast _ found
        (by simp [ToString.toString, List.getLast?_cons])⟩
  | character base text hinvalid =>
      exact ⟨hfirst (by simp [ToString.toString]), fun found => hlast _ found
        (by simp [ToString.toString, List.getLast?_cons])⟩

/-- The terms on which the rules and actions deal with each other. A receiver stays as busy as it is.
-/
def terms (isBusy : Bool) : Terms Value (Receiver σ) where
  attributeType _ := "Processor"
  moves := moves
  typeOf := Value.type
  worlds receiver := receiver.isBusy = isBusy
  raises := Raises isBusy

end AttrGrammar.Xml

namespace AttrGrammar.Peg.ActionContext.Ready
open Xml Xml.Context

variable {σ : Type} {isBusy : Bool} {locals : List String} {facts : List Fact} {ctx : Context σ}

/-- Taking a text that is known to be there. -/
theorem takeText (h : ctx.Ready (terms isBusy) locals facts) {instanceName : String}
    (hfact : ⟨.returned instanceName, "Text"⟩ ∈ facts) :
    ∃ t, takeText instanceName ctx = (some t, (ctx.takeInstance instanceName).2) := by
  obtain ⟨v, hv, htype⟩ := h.fits.holds _ hfact
  obtain ⟨t, rfl⟩ := Value.type_eq_text.1 htype
  exact ⟨t, congrArg (fun v => (v.bind Value.text?, (ctx.takeInstance instanceName).2)) hv⟩

theorem takeLocalText (h : ctx.Ready (terms isBusy) locals facts) {name : String}
    (hfact : ⟨.localVar name, "Text"⟩ ∈ facts) :
    ∃ t, takeLocalText name ctx = (some t, { ctx with frame := (ctx.frame.takeLocal name).2 }) := by
  obtain ⟨v, hv, htype⟩ := h.fits.holds _ hfact
  obtain ⟨t, rfl⟩ := Value.type_eq_text.1 htype
  exact ⟨t, congrArg (fun v => (v.bind Value.text?,
    { ctx with frame := (ctx.frame.takeLocal name).2 })) hv⟩

theorem takeLocal (h : ctx.Ready (terms isBusy) locals facts) (name : String) :
    { ctx with frame := (ctx.frame.takeLocal name).2 }.Ready (terms isBusy) locals
      (without (.localVar name) facts) :=
  h.withFrame (h.fits.takeLocal name)

theorem setLocalText (h : ctx.Ready (terms isBusy) locals facts) {name : String}
    (hopen : (Slot.localVar name).isOpen locals = true) (t : String) :
    (setLocalText name t ctx).Ready (terms isBusy) locals
      (⟨.localVar name, "Text"⟩ :: without (.localVar name) facts) :=
  h.withFrame (h.fits.setLocal (of_decide_eq_true hopen) (.text t))

theorem appendText (h : ctx.Ready (terms isBusy) locals facts) (t : String) :
    (appendText t ctx).Ready (terms isBusy) locals facts := by
  refine h.withFrame (h.fits.modifyValue fun v => ?_)
  cases v <;> rfl

/-- With the right to report, events are reported unless the receiver is busy. -/
theorem emit (h : ctx.Ready (terms isBusy) locals facts)
    (hfact : ⟨.inherited "processor", "Processor"⟩ ∈ facts) (events : List Event) :
    (emit events ctx).pass = true ∧
      ((∃ reason, (emit events ctx).error = some reason ∧ Raises isBusy reason ctx.text) ∨
        (emit events ctx).Ready (terms isBusy) locals facts) := by
  obtain ⟨v, hv, htype⟩ := h.fits.holds _ hfact
  obtain rfl := Value.type_eq_processor.1 htype
  have hright : ctx.frame.inherited? "processor" = some .processor := hv
  have hbusy : ctx.world.isBusy = isBusy := h.world
  unfold Context.emit
  rw [hright]
  dsimp only
  split
  · next htrue => exact ⟨h.pass, .inl ⟨_, rfl, .busy _ (hbusy ▸ htrue)⟩⟩
  · exact ⟨h.pass, .inr ⟨h.pass, h.error, hbusy, h.fits⟩⟩

end AttrGrammar.Peg.ActionContext.Ready

namespace AttrGrammar.Xml
open Text Peg Parse Context Move

variable {σ : Type} {isBusy : Bool} {locals : List String}

/-! ### Actions -/

theorem performs_emit (events : List Event) :
    (terms isBusy).Performs locals (emit events : Context σ → Context σ) [report] := by
  intro ctx facts facts' h hafter
  rw [report, after_need] at hafter
  obtain ⟨hright, ⟨⟩⟩ := hafter
  exact h.emit hright events

theorem performs_emitMatched (event : String → Event) :
    (terms isBusy).Performs locals (emitMatched event : Context σ → Context σ) [report] :=
  fun ctx => performs_emit [event (matched ctx)] ctx

theorem performs_beginElement :
    (terms isBusy).Performs locals (beginElement : Context σ → Context σ)
      [.take (.returned "Name") "Text", .fill (.localVar "tag") "Text", report] := by
  intro ctx facts facts' h hafter
  rw [after_take, after_fill, report, after_need] at hafter
  obtain ⟨hname, hopen, hright, ⟨⟩⟩ := hafter
  obtain ⟨name, htaken⟩ := h.takeText hname
  rw [beginElement, htaken]
  exact ((h.takeInstance "Name").setLocalText hopen name).emit hright [.beginStartTag name]

theorem performs_closeEmpty :
    (terms isBusy).Performs locals (closeEmpty : Context σ → Context σ)
      [.take (.localVar "tag") "Text", report] := by
  intro ctx facts facts' h hafter
  rw [after_take, report, after_need] at hafter
  obtain ⟨-, hright, ⟨⟩⟩ := hafter
  exact (h.takeLocal "tag").emit hright _

theorem performs_closeElement :
    (terms isBusy).Performs locals (closeElement : Context σ → Context σ)
      [.take (.returned "Name") "Text", .take (.localVar "tag") "Text", report] := by
  intro ctx facts facts' h hafter
  rw [after_take, after_take, report, after_need] at hafter
  obtain ⟨hname, htag, hright, ⟨⟩⟩ := hafter
  obtain ⟨found, hfound⟩ := h.takeText hname
  obtain ⟨expected, hexpected⟩ := (h.takeInstance "Name").takeLocalText htag
  rw [closeElement, hfound]
  dsimp only
  rw [hexpected]
  dsimp only
  split
  · exact ((h.takeInstance "Name").takeLocal "tag").emit hright _
  · next hne => exact ⟨h.pass, .inl ⟨_, rfl, .mismatch found expected _ hne⟩⟩

theorem performs_emitAttribute :
    (terms isBusy).Performs locals (emitAttribute : Context σ → Context σ)
      [.take (.returned "Name") "Text", .take (.returned "AttributeValue") "Text", report] := by
  intro ctx facts facts' h hafter
  rw [after_take, after_take, report, after_need] at hafter
  obtain ⟨hname, hvalue, hright, ⟨⟩⟩ := hafter
  obtain ⟨name, htaken⟩ := h.takeText hname
  obtain ⟨value, htaken'⟩ := (h.takeInstance "Name").takeText hvalue
  rw [emitAttribute, htaken]
  dsimp only
  rw [htaken']
  exact ((h.takeInstance "Name").takeInstance "AttributeValue").emit hright [.attr name value]

theorem performs_setText (t : Context σ → String) :
    (terms isBusy).Performs locals (fun ctx : Context σ => setText (t ctx) ctx)
      [.fill .value "Text"] :=
  Terms.performs_set fun ctx => ⟨.text (t ctx), rfl, rfl⟩

theorem performs_appendMatched :
    (terms isBusy).Performs locals (fun ctx : Context σ => appendText (matched ctx) ctx) [] := by
  rintro ctx facts _ h ⟨⟩
  exact (h.appendText (matched ctx)).performed

theorem performs_appendReference :
    (terms isBusy).Performs locals (appendReference : Context σ → Context σ)
      [.take (.returned "Reference") "Text"] := by
  intro ctx facts facts' h hafter
  rw [after_take] at hafter
  obtain ⟨hfact, ⟨⟩⟩ := hafter
  obtain ⟨t, ht⟩ := h.takeText hfact
  rw [appendReference, ht]
  exact ((h.takeInstance "Reference").appendText t).performed

theorem performs_emitReference :
    (terms isBusy).Performs locals (emitReference : Context σ → Context σ)
      [.take (.returned "Reference") "Text", report] := by
  intro ctx facts facts' h hafter
  rw [after_take, report, after_need] at hafter
  obtain ⟨hfact, hright, ⟨⟩⟩ := hafter
  obtain ⟨t, ht⟩ := h.takeText hfact
  rw [emitReference, ht]
  exact (h.takeInstance "Reference").emit hright [.text t]

theorem performs_readCharacter (base : Nat) :
    (terms isBusy).Performs locals (readCharacter base : Context σ → Context σ)
      [.fill .value "Text"] := by
  intro ctx facts facts' h hafter
  rw [after_fill] at hafter
  obtain ⟨-, ⟨⟩⟩ := hafter
  unfold readCharacter
  split
  · next c _ => exact (h.setValue (.text c.toString)).performed
  · next hinvalid => exact ⟨h.pass, .inl ⟨_, rfl, .character base _ hinvalid⟩⟩

theorem performs_readEntity :
    (terms isBusy).Performs locals (readEntity : Context σ → Context σ)
      [.take (.returned "Name") "Text", .fill .value "Text"] := by
  intro ctx facts facts' h hafter
  rw [after_take, after_fill] at hafter
  obtain ⟨hfact, -, ⟨⟩⟩ := hafter
  obtain ⟨name, hname⟩ := h.takeText hfact
  rw [readEntity, hname]
  dsimp only
  split
  · next c _ => exact ((h.takeInstance "Name").setValue (.text c.toString)).performed
  · next hundefined => exact ⟨h.pass, .inl ⟨_, rfl, .entity name _ hundefined⟩⟩

theorem performs_rememberData :
    (terms isBusy).Performs locals (fun ctx : Context σ => setLocalText "data" (matched ctx) ctx)
      [.fill (.localVar "data") "Text"] := by
  intro ctx facts facts' h hafter
  rw [after_fill] at hafter
  obtain ⟨hopen, ⟨⟩⟩ := hafter
  exact (h.setLocalText hopen (matched ctx)).performed

theorem performs_emitInstruction :
    (terms isBusy).Performs locals (emitInstruction : Context σ → Context σ)
      [.take (.returned "Name") "Text", .clear (.localVar "data"), report] := by
  intro ctx facts facts' h hafter
  rw [after_take, after, report, after_need] at hafter
  obtain ⟨-, hright, ⟨⟩⟩ := hafter
  exact ((h.takeInstance "Name").takeLocal "data").emit hright _

/-! ### Rules -/

theorem performs_documentRules : ∀ decl ∈ (documentRules : List (RuleDecl Value (Receiver σ))),
    ∀ entry ∈ (terms isBusy : Terms Value (Receiver σ)).moves decl.name,
      (terms isBusy).Performs decl.locals (decl.perform entry.1) entry.2 := by
  have hnodup : ∀ decl ∈ (documentRules : List (RuleDecl Value (Receiver σ))),
      (decl.actions.map Action.name).Nodup := by
    simp [documentRules]
  refine fun decl hdecl => Terms.performs_forall₂ (hnodup decl hdecl) ?_
  revert decl
  simp only [documentRules, List.forall_mem_cons, List.not_mem_nil, false_implies, implies_true,
    and_true]
  exact ⟨.cons ⟨rfl, performs_emit _⟩ (.cons ⟨rfl, performs_emit _⟩ .nil), .nil,
    .cons ⟨rfl, performs_beginElement⟩ (.cons ⟨rfl, performs_closeEmpty⟩
      (.cons ⟨rfl, performs_emit _⟩ (.cons ⟨rfl, performs_closeElement⟩ .nil))),
    .cons ⟨rfl, performs_emitAttribute⟩ .nil,
    .cons ⟨rfl, performs_setText fun _ => ""⟩ (.cons ⟨rfl, performs_appendMatched⟩
      (.cons ⟨rfl, performs_appendReference⟩ .nil)),
    .cons ⟨rfl, performs_emitReference⟩ .nil, .cons ⟨rfl, performs_emitMatched _⟩ .nil,
    .cons ⟨rfl, performs_readCharacter 16⟩ (.cons ⟨rfl, performs_readCharacter 10⟩
      (.cons ⟨rfl, performs_readEntity⟩ .nil)),
    .cons ⟨rfl, performs_emitMatched _⟩ .nil, .cons ⟨rfl, performs_emitMatched _⟩ .nil,
    .cons ⟨rfl, performs_rememberData⟩ (.cons ⟨rfl, performs_emitInstruction⟩ .nil),
    .cons ⟨rfl, performs_setText matched⟩ .nil, .nil⟩

/-- The right to report is handed on to the rules that inherit it. -/
theorem handsOn_documentRules : ∀ decl ∈ (documentRules : List (RuleDecl Value (Receiver σ))),
    decl.definition.Calls (HandsOn (documentRules : List (RuleDecl Value (Receiver σ)))) := by
  simp [documentRules, Parser.Calls, HandsOn, callReporting, required, blanks, quotedValue, upTo,
    nameTree, elementTree, referenceTree, Parser.call, Parser.seq, Parser.choice, Parser.combine,
    Parser.oneFrom, Parser.noneFrom]

theorem passes_documentRules : ∀ decl ∈ (documentRules : List (RuleDecl Value (Receiver σ))),
    decl.passes (terms isBusy : Terms Value (Receiver σ)).toUsage documentRules = true := by
  have hall : (documentRules : List (RuleDecl Value (Receiver σ))).all
      (·.passes (terms isBusy : Terms Value (Receiver σ)).toUsage documentRules) = true := by rfl
  exact List.all_eq_true.1 hall

theorem kept_documentRules :
    (terms isBusy).Kept (documentRules : List (RuleDecl Value (Receiver σ))) where
  performs := performs_documentRules
  handsOn := handsOn_documentRules
  passes := passes_documentRules

end AttrGrammar.Xml

import Mathlib
import AttrGrammar.Proofs.NameMap
import AttrGrammar.Proofs.WholeReading
import AttrGrammar.Xml.Parse

/-! The grammar of documents as readers. The domain that documents are parsed with holds the rules as
they are declared, and their actions have regard to nothing but their frame, their text and the
receiver; so a document is parsed as the reader of its start rule reads it. -/

namespace AttrGrammar.Xml
open Text Peg Parse

variable {σ : Type}

namespace Context

theorem matched_eq {ctx : Context σ} {text : Slice} (h : text.toList = ctx.text.toList) :
    toString text = matched ctx := congrArg String.ofList h

theorem textual_emit (events : List Event) : Textual (emit events : Context σ → Context σ) := by
  intro ctx text span fileName h
  unfold emit
  dsimp only
  split
  · split <;> rfl
  · rfl

theorem textual_emitMatched (event : String → Event) :
    Textual (emitMatched event : Context σ → Context σ) := by
  intro ctx text span fileName h
  have hmatched : matched { ctx with text, span, fileName } = matched ctx := matched_eq h
  rw [emitMatched, emitMatched, hmatched]
  exact textual_emit _ ctx text span fileName h

/-- Events that depend on the frame, reported from a changed frame. -/
theorem textual_emitFrom (events : Frame Value → List Event) (change : Frame Value → Frame Value) :
    Textual fun ctx : Context σ => emit (events ctx.frame) { ctx with frame := change ctx.frame } :=
  fun ctx => textual_emit (events ctx.frame) { ctx with frame := change ctx.frame }

theorem textual_beginElement : Textual (beginElement : Context σ → Context σ) := by
  intro ctx text span fileName h
  unfold beginElement takeText ActionContext.takeInstance
  dsimp only
  cases (ctx.frame.takeInstance "Name").1.bind Value.text? with
  | none => rfl
  | some name =>
      exact textual_emitFrom (fun _ => [.beginStartTag name]) (fun frame =>
        ((frame.takeInstance "Name").2.setLocal "tag" (.text name)).2) ctx text span fileName h

theorem textual_closeEmpty : Textual (closeEmpty : Context σ → Context σ) :=
  textual_emitFrom (fun frame =>
      [.endStartTag, .endTag (((frame.takeLocal "tag").1.bind Value.text?).getD "")])
    fun frame => (frame.takeLocal "tag").2

theorem textual_closeElement : Textual (closeElement : Context σ → Context σ) := by
  intro ctx text span fileName h
  unfold closeElement takeText takeLocalText ActionContext.takeInstance
  dsimp only
  split
  · split
    · exact textual_emitFrom
        (fun frame => [.endTag (((frame.takeInstance "Name").1.bind Value.text?).getD "")])
        (fun frame => ((frame.takeInstance "Name").2.takeLocal "tag").2) ctx text span fileName h
    · rfl
  · rfl

theorem textual_emitAttribute : Textual (emitAttribute : Context σ → Context σ) := by
  intro ctx text span fileName h
  unfold emitAttribute takeText ActionContext.takeInstance
  dsimp only
  split
  · next name value _ _ =>
    exact textual_emitFrom (fun _ => [.attr name value])
      (fun frame => ((frame.takeInstance "Name").2.takeInstance "AttributeValue").2)
      ctx text span fileName h
  · rfl

theorem textual_appendReference : Textual (appendReference : Context σ → Context σ) := by
  intro ctx text span fileName h
  unfold appendReference takeText ActionContext.takeInstance
  dsimp only
  cases (ctx.frame.takeInstance "Reference").1.bind Value.text? <;> rfl

theorem textual_emitReference : Textual (emitReference : Context σ → Context σ) := by
  intro ctx text span fileName h
  unfold emitReference takeText ActionContext.takeInstance
  dsimp only
  cases (ctx.frame.takeInstance "Reference").1.bind Value.text? with
  | none => rfl
  | some t =>
      exact textual_emitFrom (fun _ => [.text t]) (fun frame => (frame.takeInstance "Reference").2)
        ctx text span fileName h

theorem textual_readCharacter (base : Nat) :
    Textual (readCharacter base : Context σ → Context σ) := by
  intro ctx text span fileName h
  have hmatched : matched { ctx with text, span, fileName } = matched ctx := matched_eq h
  unfold readCharacter
  rw [hmatched]
  dsimp only
  rw [h]
  split <;> rfl

theorem textual_readEntity : Textual (readEntity : Context σ → Context σ) := by
  intro ctx text span fileName h
  unfold readEntity takeText ActionContext.takeInstance
  dsimp only
  split <;> rfl

theorem textual_emitInstruction : Textual (emitInstruction : Context σ → Context σ) :=
  textual_emitFrom (fun frame =>
      [.processingInstruction (((frame.takeInstance "Name").1.bind Value.text?).getD "")
        ((((frame.takeInstance "Name").2.takeLocal "data").1.bind Value.text?).getD "")])
    fun frame => ((frame.takeInstance "Name").2.takeLocal "data").2

/-- A change of the frame that may depend on the text. -/
theorem textual_changeFrame (change : String → Frame Value → Frame Value) :
    Textual fun ctx : Context σ => { ctx with frame := change (matched ctx) ctx.frame } := by
  intro ctx text span fileName h
  have hmatched : matched { ctx with text, span, fileName } = matched ctx := matched_eq h
  simp only [hmatched]

theorem textual_appendMatched :
    Textual fun ctx : Context σ => appendText (matched ctx) ctx := by
  intro ctx text span fileName h
  have hmatched : matched { ctx with text, span, fileName } = matched ctx := matched_eq h
  simp only [hmatched, appendText]

end Context

theorem textual_documentRules :
    ∀ decl ∈ (documentRules : List (RuleDecl Value (Receiver σ))), ∀ a ∈ decl.actions,
      Textual a.run := by
  simp only [documentRules, List.forall_mem_cons, List.not_mem_nil, false_implies, implies_true,
    and_true, true_and]
  open Context in
  exact ⟨⟨textual_emit _, textual_emit _⟩,
    ⟨textual_beginElement, textual_closeEmpty, textual_emit _, textual_closeElement⟩,
    textual_emitAttribute,
    ⟨textual_changeFrame fun _ frame => frame.setValue (.text ""),
      textual_appendMatched, textual_appendReference⟩,
    textual_emitReference, textual_emitMatched _,
    ⟨textual_readCharacter 16, textual_readCharacter 10, textual_readEntity⟩,
    textual_emitMatched _, textual_emitMatched _,
    ⟨textual_changeFrame fun t frame => (frame.setLocal "data" (.text t)).2,
      textual_emitInstruction⟩,
    textual_changeFrame fun t frame => frame.setValue (.text t)⟩

/-- The rule table holds the rules of the grammar as they are declared. -/
theorem tabulates_domain (config : Config) :
    Tabulates (domain config : Domain Value (Receiver σ)).rules documentRules :=
  ⟨by simp [documentRules, UInt32.size], by cbv⟩

theorem domain_eq_build (config : Config) :
    (domain config : Domain Value (Receiver σ)) = .build config [documentGrammar] := by
  unfold domain Domain.build
  simp only [List.foldl_cons, List.foldl_nil, Domain.offer_eq_add]
  split <;> next h => rw [h]

/-- The meaning of a rule by its name, where so many activations may be nested. -/
def reader (levels : Nat) (rule : String) : Callee Value (Receiver σ) :=
  declReader documentRules none levels true rule

theorem config_domain (config : Config) :
    (domain config : Domain Value (Receiver σ)).config = config := by
  rw [domain_eq_build]
  rfl

theorem size_domain (config : Config) :
    (domain config : Domain Value (Receiver σ)).rules.size = 13 := by
  have hlength := congrArg List.length (tabulates_domain (σ := σ) config).entries
  simpa [documentRules] using hlength

/-- The rule of whole documents. -/
def documentRule : RuleDecl Value (Receiver σ) := documentRules.head (by simp [documentRules])

/-- The grammar is found by its name; it starts with the rule of whole documents and skips nothing. -/
theorem require_domain (config : Config) : ∃ g : Grammar,
    require (domain config : Domain Value (Receiver σ)) "xml.XmlGrammar" = .ok g ∧
      Declares (domain config : Domain Value (Receiver σ)) g documentRules none documentRule := by
  have hgrammars : (domain config : Domain Value (Receiver σ)).grammars.toList.map (fun g =>
      (g.qualifiedName, g.startRule, g.skipRule)) =
      [("xml.XmlGrammar", some (RuleDecl.place (documentRules : List (RuleDecl Value (Receiver σ)))
        "Document"), none)] := by cbv
  obtain ⟨g, hg, hparts⟩ := List.map_eq_singleton_iff.1 hgrammars
  simp only [Prod.mk.injEq] at hparts
  obtain ⟨hname, hstart, hskip⟩ := hparts
  have hmem : g ∈ (domain config : Domain Value (Receiver σ)).grammars := by
    rw [← Array.mem_toList_iff, hg]
    exact List.mem_singleton_self g
  have hcount : (domain config : Domain Value (Receiver σ)).grammars.size ≤ UInt32.size := by
    rw [← Array.length_toList, hg, List.length_singleton]
    decide
  have hindexed : (domain config : Domain Value (Receiver σ)).Indexed := by
    rw [domain_eq_build]
    exact Domain.indexed_build config _
  refine ⟨g, ?_, ?_⟩
  · rw [require, (hindexed.grammar?_eq_some hcount).2 ⟨hmem, hname⟩]
  · have hlinked : (domain config : Domain Value (Receiver σ)).Linked := by
      have hsize := size_domain (σ := σ) config
      rw [domain_eq_build] at hsize ⊢
      exact Domain.linked_build config _ (by rw [hsize]; decide)
    exact ⟨hlinked, hmem, tabulates_domain config, hstart, rfl, hskip, textual_documentRules⟩

/-- How many activations may be nested in a parse of an input of some length. -/
def levels (config : Config) (length : Nat) : Nat :=
  if config.maxDepth = 0 then 14 * (length + 2) + UInt32.size else config.maxDepth

theorem levelsFor_domain (config : Config) (length : Nat) :
    levelsFor (domain config : Domain Value (Receiver σ)) length = levels config length := by
  unfold levelsFor levels fuelFor
  rw [config_domain, size_domain]
  split
  · next h => rw [if_neg (by omega)]
  · rfl

/-- A gap where there is no skip rule is nothing. -/
theorem whole_unskipped (call : Callee Value (Receiver σ)) (args : List Value) (w : List Char)
    (u : Receiver σ) : Reader.whole .nothing call args w u = call args w u := by
  unfold Reader.whole Reader.nothing
  simp only [Outcome.map_hit, Outcome.andThen_hit]
  cases call args w u <;> rfl

theorem parseDocument_eq {config : Config} {g : Grammar}
    (hg : require (domain config : Domain Value (Receiver σ)) "xml.XmlGrammar" = .ok g)
    (input fileName : String) (receiver : Receiver σ) :
    let report := parse (domain config) g (Buffer.ofString input)
      { fileName, args := [.processor] } receiver
    parseDocument config input { fileName } receiver =
      { report with outcome := report.outcome.map fun _ => () } := by
  intro report
  unfold parseDocument parseWith
  dsimp only
  rw [hg]

/-- A parse whose value is dropped. -/
theorem concluded_of_report {o : Outcome (Option Value) Unit (Receiver σ)}
    {whole : Report (Option Value) (Receiver σ)} {report : Report Unit (Receiver σ)}
    (hwhole : o.concluded = (whole.outcome.mapError Failure.reason, whole.world))
    (hreport : report = { whole with outcome := whole.outcome.map fun _ => () }) :
    report.outcome.mapError Failure.reason = o.concluded.1.map (fun _ => ()) ∧
      report.world = o.concluded.2 := by
  rw [hwhole, hreport]
  cases whole.outcome <;> exact ⟨rfl, rfl⟩

/-- An input that is short enough is parsed as the rule of whole documents reads it. -/
theorem parseDocument_denotes (config : Config) (input fileName : String) (receiver : Receiver σ)
    (hshort : config.maxInputLength = 0 ∨ input.toList.length ≤ config.maxInputLength) :
    let o := reader (levels config input.toList.length) "Document" [.processor] input.toList receiver
    let report := parseDocument config input { fileName } receiver
    report.outcome.mapError Failure.reason = o.concluded.1.map (fun _ => ()) ∧
      report.world = o.concluded.2 := by
  intro o report
  obtain ⟨g, hg, hdeclares⟩ := require_domain (σ := σ) config
  have hlength : (Buffer.ofString input).size = input.toList.length := by simp [Buffer.ofString]
  have hparse := parse_denotes hdeclares (Buffer.ofString input)
    { fileName, args := [.processor] } rfl rfl (by rw [config_domain, hlength]; exact hshort)
    receiver
  rw [levelsFor_domain, hlength] at hparse
  have ho : Reader.whole .nothing (reader (levels config input.toList.length) "Document")
      [.processor] input.toList receiver = o := whole_unskipped _ _ _ _
  refine concluded_of_report ?_ (parseDocument_eq hg input fileName receiver)
  rw [← ho]
  exact hparse

/-- An input that is too long is not parsed. -/
theorem parseDocument_tooLong (config : Config) (input fileName : String) (receiver : Receiver σ)
    (hlong : ¬ (config.maxInputLength = 0 ∨ input.toList.length ≤ config.maxInputLength)) :
    let report := parseDocument config input { fileName } receiver
    (∃ e, report.outcome = .error e) ∧ report.world = receiver := by
  obtain ⟨g, hg, hdeclares⟩ := require_domain (σ := σ) config
  have hlength : (Buffer.ofString input).size = input.toList.length := by simp [Buffer.ofString]
  have htooLong := parse_tooLong (d := domain config) (g := g) (Buffer.ofString input)
    (by rw [config_domain, hlength]; exact hlong) { fileName, args := [.processor] } receiver
  rw [parseDocument_eq hg input fileName receiver]
  generalize parse (domain config) g (Buffer.ofString input) _ receiver = whole at htooLong ⊢
  obtain ⟨he, hworld⟩ := htooLong
  exact ⟨⟨_, by dsimp only; rw [he]; rfl⟩, hworld⟩

end AttrGrammar.Xml

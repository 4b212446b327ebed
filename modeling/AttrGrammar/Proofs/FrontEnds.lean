import AttrGrammar.Proofs.CppLayout
import AttrGrammar.Proofs.CppSlots
import AttrGrammar.Proofs.Sufficiency
import AttrGrammar.Proofs.XmlSlots

/-! The grammars of statements, of expressions and of documents hold together. Whatever is parsed with
them, a parse returns a result of the kind asked for, or it fails because of the input, the limits or
the trace. Nothing that a rule, a call or an action relies on is ever missing, and there is always
fuel. -/

namespace AttrGrammar.Parse
open Text Scan Peg

variable {V W : Type} {terms : Terms V W} {d : Domain V W} {g : Grammar}
  {decls : List (RuleDecl V W)} {skip : Option String} {start : RuleDecl V W}

/-- A parse returns a result, or it fails in a way that is foreseen. -/
def Report.Foreseen {α : Type} (report : Report α W) (source : Source)
    (raises : String → Slice → Prop) : Prop :=
  ∀ e, report.outcome = .error e → e.Foreseen source raises

/-- It makes no difference to a parse what its actions do in place of rejecting a match. -/
def NeverRejects (d : Domain V W) (g : Grammar) (text : Buffer) (options : Options V) (world : W) :
    Prop :=
  ∀ fallback, parse (d.mapActions (·.insteadOfReject fallback)) g text options world =
    parse d g text options world

theorem Declares.neverRejects (h : Declares d g decls skip start) (hkept : terms.Kept decls)
    (hskip : PlainSkip decls skip) (text : Buffer) {options : Options V}
    (hargs : options.args.map terms.typeOf = start.inherited.map terms.attributeType) {world : W}
    (hworld : terms.worlds world) : NeverRejects d g text options world :=
  fun _ => (h.parse_provided hkept hskip _ (fun _ _ hpass => if_pos hpass) text hargs hworld).1

/-- Where there is fuel for the ranks of the rules, a parse ends as its start rule declares or as is
foreseen. -/
theorem Declares.parse_ends (h : Declares d g decls skip start) (hkept : terms.Kept decls)
    (hskip : PlainSkip decls skip) {reads rank : String → Nat} {bound : Nat}
    (hranked : Ranked decls skip reads rank bound) (text : Buffer)
    (hfuel : bound * (text.size + 1) ≤ (d.rules.size + 1) * (text.size + 2) + UInt32.size)
    {options : Options V}
    (hargs : options.args.map terms.typeOf = start.inherited.map terms.attributeType) {world : W}
    (hworld : terms.worlds world) :
    (∀ r, (parse d g text options world).outcome = .ok r →
        r.toList.map terms.typeOf = start.valueType.toList) ∧
      (parse d g text options world).Foreseen ⟨text, options.fileIndex, options.fileName⟩
        terms.raises := by
  have hlength : options.args.length = start.inherited.length := by
    simpa using congrArg List.length hargs
  have hfinishes := h.parse_finishes hranked text hfuel hlength world
  have hprovided := (h.parse_provided hkept hskip id (fun _ _ _ => rfl) text hargs hworld).2
  constructor
  · intro r hr
    rw [hr] at hprovided
    exact hprovided
  · intro e he
    rw [he] at hprovided hfinishes
    exact hprovided fun hexhausted => hfinishes (congrArg _ hexhausted)

end AttrGrammar.Parse

namespace AttrGrammar.Cpp
open Text Peg Parse

variable {α : Type}

/-- What holds of a parse of an input with one of the two grammars. -/
theorem parse_start {config : Config} {g : Grammar} {start : RuleDecl Value Unit}
    (h : Declares (domain config) g allRules (some "Spacing") start)
    (hinherited : start.inherited = []) (text : Buffer) {options : Options Value}
    (hargs : options.args = []) :
    NeverRejects (domain config) g text options () ∧
      (∀ r, (parse (domain config) g text options ()).outcome = .ok r →
        r.toList.map Value.type = start.valueType.toList) ∧
      (parse (domain config) g text options ()).Foreseen
        ⟨text, options.fileIndex, options.fileName⟩ Raises := by
  have htypes : options.args.map terms.typeOf = start.inherited.map terms.attributeType := by
    rw [hargs, hinherited]
    rfl
  have hfuel : 13 * (text.size + 1) ≤
      ((domain config).rules.size + 1) * (text.size + 2) + UInt32.size := by
    rw [size_domain]
    omega
  exact ⟨h.neverRejects kept_allRules plainSkip_allRules text htypes trivial,
    h.parse_ends kept_allRules plainSkip_allRules ranked_allRules text hfuel htypes trivial⟩

/-- A result is of the kind that is looked for, so only the parse itself can fail. -/
theorem parseAs_error {pick : Value → Option α} {grammar : GrammarDecl Value Unit} {name : String}
    {config : Config} {g : Grammar} (hg : require (domain config) grammar.qualifiedName = .ok g)
    {input : String} {options : Options Value}
    (hpick : ∀ r, (parse (domain config) g (Buffer.ofString input) options ()).outcome = .ok r →
      (r.bind pick).isSome) {e : Failure}
    (he : (parseAs pick grammar name config input options).outcome = .error e) :
    (parse (domain config) g (Buffer.ofString input) options ()).outcome = .error e := by
  unfold parseAs at he
  rw [hg] at he
  dsimp only at he
  split at he
  · next e' hfailed =>
    cases he
    exact hfailed
  · next r hr =>
    obtain ⟨result, hresult⟩ := Option.isSome_iff_exists.1 (hpick r hr)
    rw [hresult] at he
    cases he

/-- A parse with a grammar whose start rule declares the kind of value that is looked for. -/
theorem parseAs_foreseen {pick : Value → Option α} {type : String}
    {grammar : GrammarDecl Value Unit} (name : String) {start : RuleDecl Value Unit} {config : Config}
    (hrequire : ∃ g, require (domain config) grammar.qualifiedName = .ok g ∧
      Declares (domain config) g allRules (some "Spacing") start)
    (hinherited : start.inherited = []) (hvalueType : start.valueType = some type)
    (hpick : ∀ v, v.type = type → (pick v).isSome) (input : String) {options : Options Value}
    (hargs : options.args = []) :
    let text := Buffer.ofString input
    (parseAs pick grammar name config input options).Foreseen
        ⟨text, options.fileIndex, options.fileName⟩ Raises ∧
      ∃ g, require (domain config) grammar.qualifiedName = .ok g ∧
        NeverRejects (domain config) g text options () := by
  intro text
  obtain ⟨g, hg, hdeclares⟩ := hrequire
  obtain ⟨hnever, hok, herror⟩ := parse_start hdeclares hinherited text hargs
  refine ⟨fun e he => herror e (parseAs_error hg (fun r hr => ?_) he), g, hg, hnever⟩
  have htypes := hok r hr
  rw [hvalueType] at htypes
  obtain ⟨v, hv, htype⟩ := List.map_eq_singleton_iff.1 htypes
  rw [Option.toList_eq_singleton_iff.1 hv]
  exact hpick v htype

theorem isSome_expression? (v : Value) (h : v.type = "Expression") : v.expression?.isSome := by
  obtain ⟨e, rfl⟩ := Value.type_eq_expression.1 h
  rfl

theorem isSome_statement? (v : Value) (h : v.type = "Statement") : v.statement?.isSome := by
  obtain ⟨s, rfl⟩ := Value.type_eq_statement.1 h
  rfl

end AttrGrammar.Cpp

namespace AttrGrammar.Xml
open Text Peg Parse

variable {σ : Type}

/-- The rank of a rule among those that may be called before anything has been read. -/
def rank : String → Nat
  | "Document" => 2
  | "Misc" | "Content" | "Attribute" => 1
  | _ => 0

theorem ranked_documentRules :
    Ranked (documentRules : List (RuleDecl Value (Receiver σ))) none (fun _ => 0) rank 3 where
  least _ _ := Nat.zero_le _
  bounded name := by
    unfold rank
    split <;> decide
  headed := by
    have hall : (documentRules : List (RuleDecl Value (Receiver σ))).all (fun decl =>
        decl.definition.headed (fun _ => 0) true fun rule => rank rule < rank decl.name) = true := by
      rfl
    exact List.all_eq_true.1 hall

theorem parseWith_error {config : Config} {g : Grammar}
    (hg : require (domain config : Domain Value (Receiver σ)) "xml.XmlGrammar" = .ok g)
    {input : String} {options : Options Value} {receiver : Receiver σ} {e : Failure}
    (he : (parseWith config input options receiver).outcome = .error e) :
    (parse (domain config) g (Buffer.ofString input) options receiver).outcome = .error e := by
  unfold parseWith at he
  dsimp only at he
  rw [hg] at he
  dsimp only at he
  generalize parse (domain config) g (Buffer.ofString input) options receiver = whole at he ⊢
  cases hwhole : whole.outcome with
  | error e' =>
      rw [hwhole] at he
      cases he
      rfl
  | ok r =>
      rw [hwhole] at he
      cases he

theorem parseDocument_foreseen (config : Config) (input : String) (options : Options Value)
    (receiver : Receiver σ) :
    let text := Buffer.ofString input
    (parseDocument config input options receiver).Foreseen
        ⟨text, options.fileIndex, options.fileName⟩ (Raises receiver.isBusy) ∧
      ∃ g, require (domain config : Domain Value (Receiver σ)) "xml.XmlGrammar" = .ok g ∧
        NeverRejects (domain config) g text { options with args := [.processor] } receiver := by
  intro text
  obtain ⟨g, hg, hdeclares⟩ := require_domain (σ := σ) config
  let options' := { options with args := [Value.processor] }
  have hskip : PlainSkip (documentRules : List (RuleDecl Value (Receiver σ))) none := nofun
  have htypes : options'.args.map (terms (σ := σ) receiver.isBusy).typeOf =
      (documentRule : RuleDecl Value (Receiver σ)).inherited.map fun _ => "Processor" := rfl
  have hfuel : 3 * (text.size + 1) ≤
      ((domain config : Domain Value (Receiver σ)).rules.size + 1) * (text.size + 2) +
        UInt32.size := by
    rw [size_domain]
    omega
  obtain ⟨-, herror⟩ := hdeclares.parse_ends kept_documentRules hskip ranked_documentRules text hfuel
    htypes (rfl : receiver.isBusy = receiver.isBusy)
  exact ⟨fun e he => herror e (parseWith_error hg he), g, hg,
    hdeclares.neverRejects kept_documentRules hskip text htypes rfl⟩

end AttrGrammar.Xml

namespace AttrGrammar
open Text Peg Parse

/-- For every input, under all limits and with any trace, parsing a statement, an expression or a
document ends with a result or fails as is foreseen: something expected does not stand in the input,
activations would be nested beyond the limit, the input is too long, the trace cannot be written, or an
action raises. For statements and expressions an action raises for an integer literal that is out of
range only; for documents it raises for an end tag that does not match, an undefined entity, a reference
to no character, or a busy receiver, and never for want of a receiver or of a start tag. No action ever
rejects a match: it makes no difference what would be done in that place. -/
theorem frontEnds_foreseen (config : Config) (input : String) :
    let text := Buffer.ofString input
    (∀ options : Options Cpp.Value,
        let options := { options with args := [] }
        let source : Scan.Source := ⟨text, options.fileIndex, options.fileName⟩
        (Cpp.parseStatement config input options).Foreseen source Cpp.Raises ∧
          (Cpp.parseExpression config input options).Foreseen source Cpp.Raises ∧
          ∀ name ∈ ["cpp.StatementGrammar", "cpp.ExpressionGrammar"],
            ∃ g, require (Cpp.domain config) name = .ok g ∧
              NeverRejects (Cpp.domain config) g text options ()) ∧
      ∀ (σ : Type) (options : Options Xml.Value) (receiver : Xml.Receiver σ),
        let domain : Domain Xml.Value (Xml.Receiver σ) := Xml.domain config
        let source : Scan.Source := ⟨text, options.fileIndex, options.fileName⟩
        (Xml.parseDocument config input options receiver).Foreseen source
            (Xml.Raises receiver.isBusy) ∧
          (∀ reason location, (Xml.parseDocument config input options receiver).outcome =
              .error (.error (.exception reason location)) →
            reason ≠ "no xml processor in scope" ∧
              ∀ found : String, reason ≠ s!"end tag '{found}' has no start tag") ∧
          ∃ g, require domain "xml.XmlGrammar" = .ok g ∧
            NeverRejects domain g text { options with args := [.processor] } receiver := by
  intro text
  constructor
  · intro options options' source
    obtain ⟨hstatement, hstatements⟩ := Cpp.parseAs_foreseen "CompoundStatement"
      (Cpp.require_domain config Cpp.statementGrammar.qualifiedName Cpp.compoundRule rfl
        (by rw [Cpp.grammars_domain]; rfl)) rfl rfl Cpp.isSome_statement? input
      (show options'.args = [] from rfl)
    obtain ⟨hexpression, hexpressions⟩ := Cpp.parseAs_foreseen "Expression"
      (Cpp.require_domain config Cpp.expressionGrammar.qualifiedName Cpp.expressionRule rfl
        (by rw [Cpp.grammars_domain]; rfl)) rfl rfl Cpp.isSome_expression? input
      (show options'.args = [] from rfl)
    refine ⟨hstatement, hexpression, ?_⟩
    rw [List.forall_mem_cons, List.forall_mem_singleton]
    exact ⟨hstatements, hexpressions⟩
  · intro σ options receiver domain source
    obtain ⟨hdocument, hdocuments⟩ := Xml.parseDocument_foreseen config input options receiver
    refine ⟨hdocument, fun reason location hfailed => ?_, hdocuments⟩
    cases hdocument _ hfailed with
    | exception _ start stop hraises => exact hraises.reason_ne

end AttrGrammar

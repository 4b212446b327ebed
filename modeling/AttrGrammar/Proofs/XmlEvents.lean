import AttrGrammar.Proofs.ReaderLogic
import AttrGrammar.Proofs.XmlRules

/-! The events of a document form a tree. Events are reported while the parse may still give up what
it has just read, and none of them is ever taken back. Yet after the first event of a rule nothing can
miss any more: what follows is repeated, optional or required, so that a rule either reports what one
of its words is made of, or misses before it has reported anything, or stops the parse within a word.
The names of a start tag and its end tag agree because the one is kept in a local variable until the
other is compared with it. -/

namespace AttrGrammar.Xml
open Text Peg
open Reader Context

variable {σ : Type}

/-! ### Words of events -/

/-- What may stand before and behind the outermost element, as well as inside any. -/
inductive IsMisc : Event → Prop where
  | comment (t : String) : IsMisc (.comment t)
  | instruction (target data : String) : IsMisc (.processingInstruction target data)

/-- The events of attributes. -/
def attributeEvents (attributes : List (String × String)) : List Event :=
  attributes.map fun a => .attr a.1 a.2

mutual

/-- What is reported of the inside of an element. -/
inductive ContentWord : List Event → Prop where
  | nil : ContentWord []
  | text (t : String) {rest : List Event} (h : ContentWord rest) : ContentWord (.text t :: rest)
  | misc {e : Event} (he : IsMisc e) {rest : List Event} (h : ContentWord rest) :
    ContentWord (e :: rest)
  | element {inner rest : List Event} (helement : ElementWord inner) (h : ContentWord rest) :
    ContentWord (inner ++ rest)

/-- What is reported of an element. -/
inductive ElementWord : List Event → Prop where
  | tags (name : String) (attributes : List (String × String)) {content : List Event}
      (h : ContentWord content) :
    ElementWord (.beginStartTag name :: attributeEvents attributes ++ .endStartTag :: content ++
      [.endTag name])

end

/-- What is reported of a document. -/
inductive DocumentWord : List Event → Prop where
  | intro {before element after : List Event} (hbefore : ∀ e ∈ before, IsMisc e)
      (helement : ElementWord element) (hafter : ∀ e ∈ after, IsMisc e) :
    DocumentWord (.startDocument :: before ++ element ++ after ++ [.endDocument])

theorem ContentWord.append {front rest : List Event} (hfront : ContentWord front)
    (hrest : ContentWord rest) : ContentWord (front ++ rest) :=
  match hfront with
  | .nil => hrest
  | .text t h => .text t (h.append hrest)
  | .misc he h => .misc he (h.append hrest)
  | .element helement h => by
      rw [List.append_assoc]
      exact .element helement (h.append hrest)

theorem ElementWord.content {es : List Event} (h : ElementWord es) : ContentWord es := by
  have h' := ContentWord.element h .nil
  rwa [List.append_nil] at h'

/-- There are elements. -/
theorem elementWord_empty (name : String) :
    ElementWord [.beginStartTag name, .endStartTag, .endTag name] := .tags name [] .nil

/-- The events are the beginning of a word. -/
def Begins (word : List Event → Prop) (es : List Event) : Prop := ∃ rest, word (es ++ rest)

theorem Begins.of_word {word : List Event → Prop} {es : List Event} (h : word es) :
    Begins word es := ⟨[], by rwa [List.append_nil]⟩

namespace Receiver

theorem takeAll_append (u : Receiver σ) (es es' : List Event) :
    u.takeAll (es ++ es') = (u.takeAll es).takeAll es' := by
  simp [takeAll, List.foldl_append]

end Receiver

/-! ### Phases of a rule -/

/-- What is known of the local variables and of the events reported so far by a rule. -/
abbrev Phase := List (String × Option Value) → List Event → Prop

/-- The receiver was in some state before, and the rule is in the phase now. -/
def After (u : Receiver σ) (S : Phase) : Condition Value (Receiver σ) :=
  fun f u' => ∃ es, S f.locals es ∧ u' = u.takeAll es

/-- The receiver has got the beginning of a word. -/
def Broken (u : Receiver σ) (word : List Event → Prop) (u' : Receiver σ) : Prop :=
  ∃ es, Begins word es ∧ u' = u.takeAll es

/-- Whatever is reported in the phase is the beginning of a word. -/
def Phase.Within (S : Phase) (word : List Event → Prop) : Prop :=
  ∀ locals es, S locals es → Begins word es

/-- Calling the rule reports a word, or nothing where it misses, or the beginning of a word where the
parse stops. -/
def Reports (callee : Callee Value (Receiver σ)) (word : List Event → Prop) : Prop :=
  ∀ args w u, (callee args w u).Satisfies (fun _ u' => ∃ es, word es ∧ u' = u.takeAll es)
    (fun _ u' => u' = u) (Broken u word)

section

variable {u : Receiver σ} {S S' R : Phase} {word word' : List Event → Prop}

theorem After.broken (hS : S.Within word) {f : Frame Value} {u' : Receiver σ}
    (h : After u S f u') : Broken u word u' := by
  obtain ⟨es, hes, rfl⟩ := h
  exact ⟨es, hS _ _ hes, rfl⟩

theorem After.imp (h : ∀ locals es, S locals es → S' locals es) (f : Frame Value)
    (u' : Receiver σ) : After u S f u' → After u S' f u' :=
  fun ⟨es, hes, hu⟩ => ⟨es, h _ _ hes, hu⟩

/-- Where something is required, the parse stops within a word. -/
theorem satisfies_expect {x : Reader Value (Receiver σ)}
    (hx : x.Satisfies (After u S) (After u S') (After u R) (Broken u word))
    (hR : R.Within word) {R' : Condition Value (Receiver σ)} :
    (expect x).Satisfies (After u S) (After u S') R' (Broken u word) :=
  hx.expect fun _ _ => After.broken hR

/-- Calling a rule that reports goes on from phase to phase. -/
theorem satisfies_reporting {call : Rules σ} {rule : String} {args : List (Argument Value)}
    (hcall : Reports (call rule) word')
    (hnext : ∀ locals es es', S locals es → word' es' → S' locals (es ++ es'))
    (hS : S.Within word) (hS' : S'.Within word) :
    (nonterminal (call rule) rule args).Satisfies (After u S) (After u S') (After u S)
      (Broken u word) := by
  refine .nonterminal ?_ fun _ _ => After.broken hS
  rintro values w f _ ⟨es, hes, rfl⟩
  refine (hcall values w (u.takeAll es)).mono ?_ ?_ ?_
  · rintro v _ ⟨es', hes', rfl⟩
    refine ⟨es ++ es', ?_, (Receiver.takeAll_append u es es').symm⟩
    have hlocals : (v.elim f (f.setInstance rule)).locals = f.locals := by cases v <;> rfl
    rw [hlocals]
    exact hnext _ _ _ hes hes'
  · rintro _ _ rfl
    exact ⟨es, hes, rfl⟩
  · rintro _ ⟨es', ⟨rest, hword⟩, rfl⟩
    obtain ⟨rest', h⟩ := hS' _ _ (hnext _ _ _ hes hword)
    refine ⟨es ++ es', ⟨rest ++ rest', ?_⟩, (Receiver.takeAll_append u es es').symm⟩
    simpa using h

/-- Calling a rule that leaves the receiver alone stays in the phase. -/
theorem satisfies_reading {call : Rules σ} {rule : String}
    (hcall : ∀ args w u, (call rule args w u).Leaves u) (hS : S.Within word) :
    (reading call rule).Keeps (After u S) (Broken u word) := by
  refine .nonterminal ?_ fun _ _ => After.broken hS
  rintro values w f _ ⟨es, hes, rfl⟩
  refine (hcall values w (u.takeAll es)).mono ?_ ?_ ?_
  · rintro v _ rfl
    refine ⟨es, ?_, rfl⟩
    cases v <;> exact hes
  · rintro _ _ rfl
    exact ⟨es, hes, rfl⟩
  · rintro _ rfl
    exact ⟨es, hS _ _ hes, rfl⟩

/-- A tree without calls and actions stays in the phase. -/
theorem satisfies_untilMark (mark : String) :
    (untilMark mark : Reader Value (Receiver σ)).Satisfies (After u S) (After u S) (After u R)
      (Broken u word) :=
  Reader.Keeps.star .nothing (Reader.Keeps.difference (.oneChar _) (.literal _))

/-- Reporting either raises and reports nothing, or reports everything. -/
theorem satisfies_emit {events : List Event} {ctx : Context σ} {Q M : Condition Value (Receiver σ)}
    {L : Receiver σ → Prop} (herror : ctx.error = none) (hpass : ctx.pass = true)
    (hstop : L ctx.world) (hhit : Q ctx.frame (ctx.world.takeAll events)) :
    (emit events ctx).Satisfies Q M L := by
  unfold emit
  split
  · split
    · exact .raised hstop
    · exact .passed herror hpass hhit
  · exact .raised hstop

/-- An action that reports, having changed the frame or not. -/
theorem After.emit {events : List Event} {f f' : Frame Value} {text : List Char}
    {u' : Receiver σ} {M : Condition Value (Receiver σ)} (h : After u S f u')
    (hnext : ∀ es, S f.locals es → S' f'.locals (es ++ events)) (hS : S.Within word) :
    (Context.emit events { ActionContext.of f text u' with frame := f' }).Satisfies (After u S') M
      (Broken u word) := by
  obtain ⟨es, hes, rfl⟩ := h
  exact satisfies_emit rfl rfl ⟨es, hS _ _ hes, rfl⟩
    ⟨es ++ events, hnext es hes, (Receiver.takeAll_append u es events).symm⟩

/-- The phase in which nothing was done yet. -/
def Fresh (locals : List String) : Phase := fun ls es => ls = locals.map (·, none) ∧ es = []

theorem Fresh.within {locals : List String} {es : List Event} (h : word es) :
    (Fresh locals).Within word := by
  rintro _ _ ⟨-, rfl⟩
  exact ⟨es, h⟩

/-- The phase in which a word is complete. -/
abbrev Done (word : List Event → Prop) : Phase := fun _ => word

theorem Done.within : (Done word).Within word := fun _ _ => .of_word

/-- A rule reports what its tree does from the phase in which nothing was done yet. -/
theorem reports_activation {locals inherited : List String} {hasValue : Bool}
    {tree : Reader Value (Receiver σ)}
    (htree : ∀ u : Receiver σ, tree.Satisfies (After u (Fresh locals)) (After u (Done word))
      (After u (Fresh locals)) (Broken u word)) :
    Reports (activation locals inherited hasValue tree) word := by
  intro args w u
  refine (activation_satisfies (htree u) (fun _ _ => After.broken Done.within) args
    ⟨[], ⟨rfl, rfl⟩, rfl⟩ w).mono ?_ ?_ fun _ h => h
  · rintro _ _ ⟨f, es, hes, rfl⟩
    exact ⟨es, hes, rfl⟩
  · rintro _ _ ⟨f, es, ⟨-, rfl⟩, rfl⟩
    rfl

end

/-! ### The rules -/

/-- An event of a kind on its own. -/
def OneOf (kind : Event → Prop) (es : List Event) : Prop := ∃ e, kind e ∧ es = [e]

/-- Every rule that reports does so, and the others leave the receiver alone. -/
structure Sound (call : Rules σ) : Prop where
  quiet : ∀ rule ∈ ["AttributeValue", "Reference", "Name", "S"], ∀ args w u,
    (call rule args w u).Leaves u
  misc : Reports (call "Misc") fun es => es = [] ∨ OneOf IsMisc es
  element : Reports (call "Element") ElementWord
  attr : Reports (call "Attribute") (OneOf fun e => ∃ name value, e = .attr name value)
  content : Reports (call "Content") ContentWord
  charData : Reports (call "CharData") (OneOf fun e => ∃ t, e = .text t)
  cDataSection : Reports (call "CDataSection") (OneOf fun e => ∃ t, e = .text t)
  comment : Reports (call "Comment") (OneOf IsMisc)
  instruction : Reports (call "ProcessingInstruction") (OneOf IsMisc)

/-- What a mark opens and another one closes is reported as one event. -/
theorem reports_marked {kind : Event → Prop} (event : String → Event) (hkind : ∀ t, kind (event t))
    (opening mark closing : String) :
    Reports (activation [] ["processor"] false <| (literal opening.toList).seq <|
      (action (emitMatched event) (untilMark mark)).seq <| expect (literal closing.toList) :
        Callee Value (Receiver σ)) (OneOf kind) := by
  refine reports_activation fun u => .seq (.literal _) (.seq (Q := After u (Done (OneOf kind)))
    (.action (satisfies_untilMark mark) fun f text u' h => ?_)
    (satisfies_expect (.literal _) Done.within))
  refine After.emit h (fun es hes => ?_) (Fresh.within ⟨_, hkind "", rfl⟩)
  rw [hes.2]
  exact ⟨_, hkind _, rfl⟩

theorem readCharData_reports :
    Reports (readCharData : Callee Value (Receiver σ)) (OneOf fun e => ∃ t, e = .text t) := by
  refine reports_activation fun u => .action (Reader.Keeps.plus .nothing (.oneChar _))
    fun f text u' h => ?_
  refine After.emit h (fun es hes => ?_) (Fresh.within ⟨_, ⟨"", rfl⟩, rfl⟩)
  rw [hes.2]
  exact ⟨_, ⟨_, rfl⟩, rfl⟩

namespace Sound

variable {call : Rules σ} (h : Sound call)

include h

theorem readMisc_reports : Reports (readMisc call) fun es => es = [] ∨ OneOf IsMisc es := by
  have hfresh : (Fresh []).Within fun es => es = [] ∨ OneOf IsMisc es := Fresh.within (.inl rfl)
  have hword (_ : List (String × Option Value)) (es es' : List Event) (hes : Fresh [] ‹_› es)
      (hes' : OneOf IsMisc es') : es ++ es' = [] ∨ OneOf IsMisc (es ++ es') := by
    rw [hes.2]
    exact .inr hes'
  refine reports_activation fun u => .choice (.choice
    (satisfies_reporting h.comment hword hfresh Done.within)
    (satisfies_reporting h.instruction hword hfresh Done.within))
    ((satisfies_reading (h.quiet "S" (by simp)) hfresh).mono (fun _ _ => id) ?_ (fun _ _ => id)
      fun _ => id)
  exact After.imp fun _ _ hes => .inl hes.2

theorem readAttribute_reports :
    Reports (readAttribute call) (OneOf fun e => ∃ name value, e = .attr name value) := by
  have hfresh : (Fresh []).Within (OneOf fun e => ∃ name value, e = .attr name value) :=
    Fresh.within ⟨_, ⟨"", "", rfl⟩, rfl⟩
  refine reports_activation fun u => .action (Q := After u (Fresh [])) ?_ fun f text u' hf => ?_
  · exact .seq (satisfies_reading (h.quiet "Name" (by simp)) hfresh)
      (.seq (satisfies_reading (h.quiet "S" (by simp)) hfresh).optional
      (.seq (satisfies_expect (.oneChar _) hfresh)
      (.seq (satisfies_reading (h.quiet "S" (by simp)) hfresh).optional
        (satisfies_expect (satisfies_reading (h.quiet "AttributeValue" (by simp)) hfresh) hfresh))))
  · unfold emitAttribute takeText ActionContext.takeInstance
    dsimp only
    split
    · refine After.emit hf (fun es hes => ?_) hfresh
      rw [hes.2]
      exact ⟨_, ⟨_, _, rfl⟩, rfl⟩
    · exact .rejected rfl hf

theorem readProcessingInstruction_reports :
    Reports (readProcessingInstruction call) (OneOf IsMisc) := by
  have hfresh : (Done fun es => es = []).Within (OneOf IsMisc) := by
    rintro _ _ rfl
    exact ⟨_, _, .comment "", rfl⟩
  have hS := h.quiet "S" (by simp)
  refine reports_activation fun u => .action (Q := After u (Done fun es => es = [])) ?_
    fun f text u' hf => ?_
  · refine .seq (.literal _) (.seq ?_ (.seq (.optional (.seq (satisfies_reading hS hfresh)
      (.action (satisfies_untilMark _) fun f text u' hf => .passed rfl rfl hf)))
      (satisfies_expect (.literal _) hfresh)))
    exact (satisfies_reading (h.quiet "Name" (by simp)) (Fresh.within ⟨_, .comment "", rfl⟩)).mono
      (fun _ _ => id) (After.imp fun _ _ => And.right) (fun _ _ => id) fun _ => id
  · refine After.emit hf (fun es hes => ?_) hfresh
    rw [hes]
    exact ⟨_, .instruction _ _, rfl⟩

theorem readContent_reports : Reports (readContent call) ContentWord := by
  have hwithin : (Done ContentWord).Within ContentWord := Done.within
  have htext {es es' : List Event} (hes : ContentWord es) (hes' : OneOf (fun e => ∃ t, e = .text t) es') :
      ContentWord (es ++ es') := by
    obtain ⟨_, ⟨t, rfl⟩, rfl⟩ := hes'
    exact hes.append (.text t .nil)
  have hmisc {es es' : List Event} (hes : ContentWord es) (hes' : OneOf IsMisc es') :
      ContentWord (es ++ es') := by
    obtain ⟨e, he, rfl⟩ := hes'
    exact hes.append (.misc he .nil)
  have hreference (u : Receiver σ) : (action emitReference (reading call "Reference")).Keeps
      (After u (Done ContentWord)) (Broken u ContentWord) := by
    refine (satisfies_reading (h.quiet "Reference" (by simp)) hwithin).action fun f text u' hf => ?_
    unfold emitReference takeText ActionContext.takeInstance
    dsimp only [ActionContext.of]
    cases (f.takeInstance "Reference").1.bind Value.text? with
    | none => exact .passed rfl rfl hf
    | some t => exact After.emit hf (fun es hes => htext hes ⟨_, ⟨t, rfl⟩, rfl⟩) hwithin
  refine reports_activation fun u => ?_
  refine (Reader.Keeps.star (I := After u (Done ContentWord)) .nothing ?_).mono ?_ (fun _ _ => id)
    (fun _ _ => id) fun _ => id
  · exact .choice (.choice (.choice (.choice (.choice
      (satisfies_reporting h.charData (fun _ _ _ => htext) hwithin hwithin)
      (satisfies_reporting h.element (fun _ _ _ hes hes' => hes.append hes'.content) hwithin hwithin))
      (hreference u))
      (satisfies_reporting h.cDataSection (fun _ _ _ => htext) hwithin hwithin))
      (satisfies_reporting h.instruction (fun _ _ _ => hmisc) hwithin hwithin))
      (satisfies_reporting h.comment (fun _ _ _ => hmisc) hwithin hwithin)
  · refine After.imp fun _ es hes => ?_
    rw [hes.2]
    exact .nil

end Sound

/-- The phase behind the name of a start tag and some attributes. -/
def Tagged : Phase := fun ls es => ∃ name attributes, ls = [("tag", some (.text name))] ∧
  es = .beginStartTag name :: attributeEvents attributes

/-- The phase within the content of an element. -/
def Filled : Phase := fun ls es => ∃ name attributes content,
  ls = [("tag", some (.text name))] ∧ ContentWord content ∧
  es = .beginStartTag name :: attributeEvents attributes ++ .endStartTag :: content

theorem Tagged.within : Tagged.Within ElementWord := by
  rintro _ _ ⟨name, attributes, -, rfl⟩
  exact ⟨[.endStartTag, .endTag name], by simpa using ElementWord.tags name attributes .nil⟩

theorem Filled.within : Filled.Within ElementWord := by
  rintro _ _ ⟨name, attributes, content, -, hcontent, rfl⟩
  exact ⟨[.endTag name], .tags name attributes hcontent⟩

theorem acts_beginElement {u : Receiver σ} :
    Acts beginElement (After u (Fresh ["tag"])) (After u Tagged) (After u (Fresh ["tag"]))
      (Broken u ElementWord) := by
  intro f text u' hf
  unfold beginElement takeText ActionContext.takeInstance
  dsimp only [ActionContext.of]
  cases (f.takeInstance "Name").1.bind Value.text? with
  | none => exact .rejected rfl hf
  | some name =>
      refine After.emit (f := f) hf (fun es hes => ?_) (Fresh.within (elementWord_empty ""))
      obtain ⟨hlocals, rfl⟩ := hes
      refine ⟨name, [], ?_, rfl⟩
      simp [Frame.takeInstance, Frame.setLocal, hlocals, Entries.replace]

theorem acts_closeEmpty {u : Receiver σ} {R : Condition Value (Receiver σ)} :
    Acts closeEmpty (After u Tagged) (After u (Done ElementWord)) R (Broken u ElementWord) := by
  intro f text u' hf
  refine After.emit hf (fun es hes => ?_) Tagged.within
  obtain ⟨name, attributes, hlocals, rfl⟩ := hes
  have htag : ((f.local? "tag").bind Value.text?).getD "" = name := by
    simp [Frame.local?, hlocals, Value.text?]
  dsimp only [ActionContext.of]
  rw [htag]
  simpa using ElementWord.tags name attributes .nil

/-- An end tag is reported only if it has the name of the start tag. -/
theorem acts_closeElement {u : Receiver σ} {R : Condition Value (Receiver σ)} :
    Acts closeElement (After u Filled) (After u (Done ElementWord)) R (Broken u ElementWord) := by
  intro f text u' hf
  unfold closeElement takeText takeLocalText ActionContext.takeInstance
  dsimp only [ActionContext.of]
  split
  · next expected htag =>
    split
    · next hfound =>
      refine After.emit hf (fun es hes => ?_) Filled.within
      obtain ⟨name, attributes, content, hlocals, hcontent, rfl⟩ := hes
      have hexpected : expected = name := by
        simpa [Frame.takeInstance, Frame.takeLocal, Frame.local?, hlocals, Value.text?, eq_comm]
          using htag
      rw [← hfound, hexpected]
      exact .tags name attributes hcontent
    · exact .raised (hf.broken Filled.within)
  · exact .raised (hf.broken Filled.within)

namespace Sound

variable {call : Rules σ} (h : Sound call)

include h

theorem readElement_reports : Reports (readElement call) ElementWord := by
  have hfresh : (Fresh ["tag"]).Within ElementWord := Fresh.within (elementWord_empty "")
  have hName := h.quiet "Name" (by simp)
  have hS := h.quiet "S" (by simp)
  have hattributes (u : Receiver σ) :
      ((reading call "S").seq (reporting call "Attribute")).Keeps (After u Tagged)
        (Broken u ElementWord) := by
    refine .seq (satisfies_reading hS Tagged.within)
      (satisfies_reporting h.attr (fun ls es es' hes hes' => ?_) Tagged.within Tagged.within)
    obtain ⟨name, attributes, hlocals, rfl⟩ := hes
    obtain ⟨_, ⟨n, v, rfl⟩, rfl⟩ := hes'
    exact ⟨name, attributes ++ [(n, v)], hlocals, by simp [attributeEvents]⟩
  have hopen : Phase.Within (fun ls es => Tagged ls es ∨ Filled ls es) ElementWord := by
    rintro ls es (hes | hes)
    · exact Tagged.within ls es hes
    · exact Filled.within ls es hes
  have hrest (u : Receiver σ) : (restOfElement call).Satisfies (After u Tagged)
      (After u (Done ElementWord)) (After u fun ls es => Tagged ls es ∨ Filled ls es)
      (Broken u ElementWord) := by
    have hend : (literal "</".toList).seq ((action closeElement (expect (reading call "Name"))).seq
        ((optional (reading call "S")).seq (requiredChar '>'))) |>.Satisfies (After u Filled)
        (After u (Done ElementWord)) (After u Filled) (Broken u ElementWord) :=
      .seq (.literal _) (.seq
        ((satisfies_expect (satisfies_reading hName Filled.within) Filled.within).action
          acts_closeElement)
        (.seq (satisfies_reading hS Done.within).optional (satisfies_expect (.oneChar _) Done.within)))
    have hstart : (action (emit [.endStartTag]) (oneChar (· == '>'))).Satisfies (After u Tagged)
        (After u Filled) (After u Tagged) (Broken u ElementWord) := by
      refine (Satisfies.oneChar _).action fun f text u' hf => After.emit hf (fun es hes => ?_)
        Tagged.within
      obtain ⟨name, attributes, hlocals, rfl⟩ := hes
      exact ⟨name, attributes, [], hlocals, .nil, rfl⟩
    have hcontent : (reporting call "Content").Keeps (After u Filled) (Broken u ElementWord) := by
      refine satisfies_reporting h.content (fun ls es es' hes hes' => ?_) Filled.within Filled.within
      obtain ⟨name, attributes, content, hlocals, hcontent, rfl⟩ := hes
      exact ⟨name, attributes, content ++ es', hlocals, hcontent.append hes', by simp⟩
    exact .choice ((Satisfies.literal _).action acts_closeEmpty) (.seq
      (hstart.mono (fun _ _ => id) (fun _ _ => id) (After.imp fun _ _ => .inl) fun _ => id) (.seq
      (hcontent.mono (fun _ _ => id) (fun _ _ => id) (After.imp fun _ _ => .inr) fun _ => id)
      (satisfies_expect hend Filled.within)))
  exact reports_activation fun u => .seq (.oneChar _) (.seq
    ((satisfies_reading hName hfresh).action acts_beginElement) (.seq
    (Reader.Keeps.star .nothing (hattributes u)) (.seq (satisfies_reading hS Tagged.within).optional
    (satisfies_expect (hrest u) hopen))))

end Sound

/-- The phase before the outermost element. -/
def Ahead : Phase := fun _ es => ∃ before : List Event, (∀ e ∈ before, IsMisc e) ∧
  es = .startDocument :: before

/-- The phase behind the outermost element. -/
def Behind : Phase := fun _ es => ∃ before element after : List Event, (∀ e ∈ before, IsMisc e) ∧
  ElementWord element ∧ (∀ e ∈ after, IsMisc e) ∧ es = .startDocument :: before ++ element ++ after

theorem Ahead.within : Ahead.Within DocumentWord := by
  rintro _ _ ⟨before, hbefore, rfl⟩
  refine ⟨[.beginStartTag "", .endStartTag, .endTag "", .endDocument], ?_⟩
  simpa using DocumentWord.intro hbefore (elementWord_empty "") (List.forall_mem_nil _)

theorem Behind.within : Behind.Within DocumentWord := by
  rintro _ _ ⟨before, element, after, hbefore, helement, hafter, rfl⟩
  exact ⟨[.endDocument], .intro hbefore helement hafter⟩

theorem forall_isMisc_append {es es' : List Event} (hes : ∀ e ∈ es, IsMisc e)
    (hes' : es' = [] ∨ OneOf IsMisc es') : ∀ e ∈ es ++ es', IsMisc e := by
  rcases hes' with rfl | ⟨e, he, rfl⟩
  · simpa using hes
  · simpa [or_imp, forall_and] using ⟨hes, he⟩

/-- There are documents. -/
theorem begins_documentWord_nil : Begins DocumentWord [] :=
  ⟨_, .intro (List.forall_mem_nil _) (elementWord_empty "") (List.forall_mem_nil _)⟩

theorem Sound.readDocument_reports {call : Rules σ} (h : Sound call) :
    Reports (readDocument call) DocumentWord := by
  obtain ⟨word, hword⟩ := begins_documentWord_nil
  have hahead (u : Receiver σ) : (reporting call "Misc").Keeps (After u Ahead)
      (Broken u DocumentWord) := by
    refine satisfies_reporting h.misc (fun ls es es' hes hes' => ?_) Ahead.within Ahead.within
    obtain ⟨before, hbefore, rfl⟩ := hes
    exact ⟨before ++ es', forall_isMisc_append hbefore hes', by simp⟩
  have hbehind (u : Receiver σ) : (reporting call "Misc").Keeps (After u Behind)
      (Broken u DocumentWord) := by
    refine satisfies_reporting h.misc (fun ls es es' hes hes' => ?_) Behind.within Behind.within
    obtain ⟨before, element, after, hbefore, helement, hafter, rfl⟩ := hes
    exact ⟨before, element, after ++ es', hbefore, helement, forall_isMisc_append hafter hes',
      by simp⟩
  have helement (u : Receiver σ) : (reporting call "Element").Satisfies (After u Ahead)
      (After u Behind) (After u Ahead) (Broken u DocumentWord) := by
    refine satisfies_reporting h.element (fun ls es es' hes hes' => ?_) Ahead.within Behind.within
    obtain ⟨before, hbefore, rfl⟩ := hes
    exact ⟨before, es', [], hbefore, hes', List.forall_mem_nil _, by simp⟩
  refine reports_activation fun u => .action (Q := After u Behind)
    (.seq (Q := After u Ahead) (.action .nothing fun f text u' hf => ?_) (.seq
    (Reader.Keeps.star .nothing (hahead u)) (.seq (satisfies_expect (helement u) Ahead.within)
    (Reader.Keeps.star .nothing (hbehind u))))) fun f text u' hf => ?_
  · refine After.emit hf (fun es hes => ?_) (Fresh.within hword)
    rw [hes.2]
    exact ⟨[], List.forall_mem_nil _, rfl⟩
  · refine After.emit hf (fun es hes => ?_) Behind.within
    obtain ⟨before, element, after, hbefore, helement, hafter, rfl⟩ := hes
    exact .intro hbefore helement hafter

theorem quiet_readCharacter (base : Nat) : Quiet (readCharacter base : Context σ → Context σ) := by
  intro ctx
  unfold readCharacter
  split <;> rfl

theorem quiet_readEntity : Quiet (readEntity : Context σ → Context σ) := by
  intro ctx
  unfold readEntity takeText ActionContext.takeInstance
  dsimp only
  split <;> rfl

theorem quiet_appendReference : Quiet (appendReference : Context σ → Context σ) := by
  intro ctx
  unfold appendReference takeText ActionContext.takeInstance
  dsimp only
  cases (ctx.frame.takeInstance "Reference").1.bind Value.text? <;> rfl

/-- The rules that return a text instead of reporting it leave the receiver alone. -/
theorem quiet_reader (levels : Nat) (rule : String)
    (hrule : rule ∈ ["AttributeValue", "Reference", "Name", "S"]) (args : List Value)
    (w : List Char) (u : Receiver σ) : (reader levels rule args w u).Leaves u := by
  refine declReader_leaves (· ∈ ["AttributeValue", "Reference", "Name", "S"]) (by simp)
    (fun name decl hname hdecl => ?_) levels true rule hrule args w u
  simp only [List.mem_cons, List.not_mem_nil, or_false] at hname
  have hactions : ∀ a ∈ decl.actions, Quiet a.run := by
    rcases hname with rfl | rfl | rfl | rfl <;> cases hdecl <;>
      simp only [List.forall_mem_cons, List.not_mem_nil, false_implies, implies_true, and_true]
    · exact ⟨fun _ => rfl, fun _ => rfl, quiet_appendReference⟩
    · exact ⟨quiet_readCharacter 16, quiet_readCharacter 10, quiet_readEntity⟩
    · exact fun _ => rfl
  have hcalls : decl.definition.Every
      (fun rule _ => rule ∈ ["AttributeValue", "Reference", "Name", "S"]) fun _ => True := by
    rcases hname with rfl | rfl | rfl | rfl <;> cases hdecl <;>
      simp [quotedValue, referenceTree, nameTree, Xml.required, Parser.seq, Parser.choice,
        Parser.combine, Parser.call, Parser.noneFrom, Parser.oneFrom, Parser.Every]
  exact hcalls.imp (fun _ _ => id) fun name _ => quiet_perform hactions name

/-- A rule that is not even entered reports nothing. -/
theorem reports_stop {word : List Event → Prop} (why : Stop) (h : Begins word []) :
    Reports (fun _ _ u => .stop why u : Callee Value (Receiver σ)) word :=
  fun _ _ _ => ⟨[], h, rfl⟩

theorem sound_reader (levels : Nat) : Sound (reader levels : Rules σ) := by
  induction levels with
  | zero =>
      refine ⟨quiet_reader 0, ?_, ?_, ?_, ?_, ?_, ?_, ?_, ?_⟩ <;> refine reports_stop .tooDeep ?_
      · exact ⟨[], .inl rfl⟩
      · exact ⟨_, elementWord_empty ""⟩
      · exact ⟨_, _, ⟨"", "", rfl⟩, rfl⟩
      · exact ⟨[], .nil⟩
      · exact ⟨_, _, ⟨"", rfl⟩, rfl⟩
      · exact ⟨_, _, ⟨"", rfl⟩, rfl⟩
      · exact ⟨_, _, .comment "", rfl⟩
      · exact ⟨_, _, .comment "", rfl⟩
  | succ levels ih =>
      refine ⟨quiet_reader (levels + 1), ?_, ?_, ?_, ?_, ?_, ?_, ?_, ?_⟩ <;> rw [reader_succ]
      · exact ih.readMisc_reports
      · exact ih.readElement_reports
      · exact ih.readAttribute_reports
      · exact ih.readContent_reports
      · exact readCharData_reports
      · exact reports_marked .text (fun t => ⟨t, rfl⟩) _ _ _
      · exact reports_marked .comment .comment _ _ _
      · exact ih.readProcessingInstruction_reports

theorem reports_document (levels : Nat) :
    Reports (reader levels "Document" : Callee Value (Receiver σ)) DocumentWord := by
  cases levels with
  | zero => exact reports_stop .tooDeep begins_documentWord_nil
  | succ levels =>
      rw [reader_succ]
      exact (sound_reader levels).readDocument_reports

/-- Whatever the input, the limits and the outcome are, what a receiver is handed in a parse is the
beginning of what is reported of a document, and all of it if the parse succeeds. -/
theorem parseDocument_hands (config : Config) (input fileName : String) (receiver : Receiver σ) :
    let report := parseDocument config input { fileName } receiver
    ∃ events word, report.world = receiver.takeAll events ∧ DocumentWord word ∧ events <+: word ∧
      (report.outcome = .ok () → DocumentWord events) := by
  intro report
  by_cases hshort : config.maxInputLength = 0 ∨ input.toList.length ≤ config.maxInputLength
  · obtain ⟨houtcome, hworld⟩ := parseDocument_denotes config input fileName receiver hshort
    have hreports := reports_document (levels config input.toList.length) [.processor] input.toList
      receiver
    rw [hworld]
    revert houtcome hreports
    cases reader (levels config input.toList.length) "Document" [.processor] input.toList
        receiver with
    | hit rest value u =>
        rintro - ⟨es, hes, rfl⟩
        refine ⟨es, es, ?_, hes, List.prefix_rfl, fun _ => hes⟩
        cases rest <;> rfl
    | miss m u =>
        rintro houtcome rfl
        obtain ⟨word, hword⟩ := begins_documentWord_nil
        refine ⟨[], word, rfl, hword, List.nil_prefix, fun hok => ?_⟩
        rw [show report.outcome = .ok () from hok] at houtcome
        cases houtcome
    | stop why u =>
        rintro houtcome ⟨es, ⟨rest, hword⟩, rfl⟩
        refine ⟨es, es ++ rest, rfl, hword, List.prefix_append es rest, fun hok => ?_⟩
        rw [show report.outcome = .ok () from hok] at houtcome
        cases houtcome
  · obtain ⟨⟨e, he⟩, hworld⟩ := parseDocument_tooLong config input fileName receiver hshort
    obtain ⟨word, hword⟩ := begins_documentWord_nil
    exact ⟨[], word, hworld, hword, List.nil_prefix, fun hok => by cases he.symm.trans hok⟩

/-- Keeps all events, in the order in which they come. -/
def Receiver.ledger : Receiver (List Event) := ⟨fun e es => es ++ [e], [], false⟩

theorem Receiver.state_takeAll_ledger (events : List Event) :
    (ledger.takeAll events).state = events := by
  have hfold (before : List Event) :
      events.foldl (fun es e => es ++ [e]) before = before ++ events := by
    induction events generalizing before with
    | nil => simp
    | cons e events ih => rw [List.foldl_cons, ih, List.append_assoc, List.singleton_append]
  exact hfold []

/-- Whatever the input, the limits and the outcome are, the events that a receiver has recorded when a
parse ends are the beginning of what is reported of a document, and all of it if the parse succeeds.
Receivers of any other kind are handed such events too. -/
theorem parseDocument_reports (config : Config) (input fileName : String) :
    (let report := parseDocument config input { fileName } Receiver.ledger
    (∃ word, DocumentWord word ∧ report.world.state <+: word) ∧
      (report.outcome = .ok () → DocumentWord report.world.state)) ∧
    ∀ (σ : Type) (receiver : Receiver σ),
      let report := parseDocument config input { fileName } receiver
      ∃ events word, report.world = receiver.takeAll events ∧ DocumentWord word ∧
        events <+: word ∧ (report.outcome = .ok () → DocumentWord events) := by
  refine ⟨?_, fun σ receiver => parseDocument_hands config input fileName receiver⟩
  intro report
  obtain ⟨events, word, hworld, hword, hprefix, hok⟩ :=
    parseDocument_hands config input fileName Receiver.ledger
  have hstate : report.world.state = events := by
    rw [show report.world = _ from hworld, Receiver.state_takeAll_ledger]
  rw [hstate]
  exact ⟨⟨word, hword, hprefix⟩, hok⟩

/-- An element with a text is reported by its two tags and the text, between the events of the
document. -/
theorem parseDocument_reports_element :
    let report := parseDocument {} "<a>b</a>" {} Receiver.ledger
    report.outcome = .ok () ∧
      report.world.state = [.startDocument, .beginStartTag "a", .endStartTag, .text "b", .endTag "a",
        .endDocument] ∧
      DocumentWord report.world.state := by
  intro report
  have houtcome : report.outcome = .ok () := by
    have hvalue : report.outcome.toOption = some () := by decide +kernel
    cases hreport : report.outcome with
    | ok value => rfl
    | error e =>
        rw [hreport] at hvalue
        cases hvalue
  exact ⟨houtcome, by decide +kernel, (parseDocument_reports {} "<a>b</a>" "").1.2 houtcome⟩

end AttrGrammar.Xml

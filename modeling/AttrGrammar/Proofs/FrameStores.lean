import AttrGrammar.Proofs.CallPassage
import AttrGrammar.Proofs.Journal

/-! What a tree without actions leaves in the frame it is evaluated in. Calls run in frames of their
own, and a call that hits stores the value it returns in the frame of its caller. It stays there
even if what comes behind the call fails: going back restores the place, not the frame. So, however
the tree ends, the frame is the one before it with what the journal of the run lists stored in it, and
after a failure it is the very same one if in no part of the tree a failure can follow the hit of a
call that returns a value. -/

namespace AttrGrammar.Peg

variable {V ρ α : Type}

/-- The calls of a tree that return values have names of some kind. -/
def Parser.ReturnsUnder (valued : ρ → Prop) (names : String → Prop) (p : Parser V ρ α) : Prop :=
  ∀ rule instanceName args, .nonterminal rule instanceName args ∈ p.parts → valued rule →
    names instanceName

/-- No call in the tree is one that returns a value. -/
def Parser.Quiet (valued : ρ → Prop) (p : Parser V ρ α) : Prop :=
  p.ReturnsUnder valued fun _ => False

/-- No call that returns a value stands where the tree can still fail after it has hit. -/
def Parser.Clean (valued : ρ → Prop) : Parser V ρ α → Prop
  | keywordList selector _ => selector.Quiet valued
  | sequence l r => l.Quiet valued ∧ r.Clean valued
  | alternative l r => l.Clean valued ∧ r.Clean valued
  | difference l r | exclusiveOr l r | intersection l r => l.Quiet valued ∧ r.Quiet valued
  | plus body | grouping body | token body => body.Clean valued
  | list element _ => element.Clean valued
  | action _ _ => False
  | _ => True

theorem Parser.ReturnsUnder.of_subset {valued : ρ → Prop} {names : String → Prop}
    {p l : Parser V ρ α} (h : p.ReturnsUnder valued names) (hl : l.parts ⊆ p.parts) :
    l.ReturnsUnder valued names :=
  fun rule instanceName args hpart => h rule instanceName args (hl hpart)

namespace Parser.ReturnsUnder

variable {valued : ρ → Prop} {names : String → Prop} {p l r : Parser V ρ α}

theorem body (h : p.ReturnsUnder valued names) (hparts : p.parts = p :: l.parts) :
    l.ReturnsUnder valued names :=
  h.of_subset (hparts ▸ List.subset_cons_self _ _)

theorem left (h : p.ReturnsUnder valued names) (hparts : p.parts = p :: (l.parts ++ r.parts)) :
    l.ReturnsUnder valued names :=
  h.of_subset (hparts ▸ List.subset_cons_of_subset _ (List.subset_append_left _ _))

theorem right (h : p.ReturnsUnder valued names) (hparts : p.parts = p :: (l.parts ++ r.parts)) :
    r.ReturnsUnder valued names :=
  h.of_subset (hparts ▸ List.subset_cons_of_subset _ (List.subset_append_right _ _))

end Parser.ReturnsUnder

namespace Frame

/-- The frame with values stored one after the other, each under the name of its call. -/
def storeAll (f : Frame V) (journal : List (String × V)) : Frame V :=
  journal.foldl (fun f entry => f.setInstance entry.1 entry.2) f

theorem storeAll_append (f : Frame V) (journal journal' : List (String × V)) :
    f.storeAll (journal ++ journal') = (f.storeAll journal).storeAll journal' :=
  List.foldl_append

/-- Storing returned values concerns no other part of the frame. -/
theorem storeAll_rest (f : Frame V) (journal : List (String × V)) :
    (f.storeAll journal).value = f.value ∧ (f.storeAll journal).inherited = f.inherited ∧
      (f.storeAll journal).locals = f.locals := by
  induction journal generalizing f with
  | nil => exact ⟨rfl, rfl, rfl⟩
  | cons entry journal ih => exact ih (f.setInstance entry.1 entry.2)

/-- A name answers with what was stored under it last, or else as it did before. -/
theorem instance?_storeAll (f : Frame V) (journal : List (String × V)) (name : String) :
    (f.storeAll journal).instance? name =
      (journal.reverse.lookup name).or (f.instance? name) := by
  induction journal generalizing f with
  | nil => rfl
  | cons entry journal ih =>
      obtain ⟨key, v⟩ := entry
      have hset : (f.setInstance key v).instance? name =
          (if name = key then some v else none).or (f.instance? name) := by
        rw [setInstance, instance?, Entries.lookup_insert]
        split <;> rfl
      rw [List.reverse_cons, Entries.lookup_append_singleton, Option.or_assoc, ← hset]
      exact ih (f.setInstance key v)

end Frame

end AttrGrammar.Peg

namespace AttrGrammar.Parse
open Text Scan Peg

variable {V W α β : Type}

/-- The reference leads to a rule that returns a value. -/
def Setting.Valued (setting : Setting V W) (rule : RuleRef) : Prop :=
  ∃ target, setting.rules[rule.id.index]? = some target ∧ target.hasValue = true

namespace Step

/-! ### Calls keep the frame of their caller -/

/-- Runs leave the frame as it was, however they end. -/
abbrev KeepsFrame (s : State V W) (_ : Option Failure) (t : State V W) : Prop := t.frame = s.frame

theorem keepsFrame_passage (setting : Setting V W) : Passage setting (KeepsFrame (V := V)) where
  refl _ := rfl
  trans h h' := h'.trans h
  exhausted _ := rfl
  fail _ _ _ := rfl
  unexpected _ h _ := h
  advance _ := rfl
  rewound h := h
  recross h h' := h'.trans h
  inToken h := h
  stack _ h := h

theorem evaluate_keepsFrame (rule : Rule V W) (start : Position) (x : Step V W Match) :
    Along KeepsFrame (evaluate rule start x) := by
  intro s
  unfold Step.evaluate
  rw [ensures_inFrame]
  exact (ensures_trivial _ _).mono (fun _ _ _ => rfl) fun _ _ _ => rfl

theorem activate_keepsFrame (setting : Setting V W) (rule : Rule V W) (x : Step V W Match) :
    Along KeepsFrame (activate setting rule x) := by
  intro s
  simp only [activate, ensures_bind, ensures_place]
  refine ensures_enter setting rule (fun _ => rfl) (fun log notices => ?_) fun _ _ => rfl
  refine ensures_closing setting rule _ ((evaluate_keepsFrame rule _ x _).mono (fun m t ht => ?_)
    fun e t ht => ?_)
  all_goals exact ensures_leave setting rule _ _ (fun _ _ => ht) fun _ _ => ht

theorem evalRule_keepsFrame (setting : Setting V W) (fuel : Nat) (id : RuleId) :
    Along KeepsFrame (evalRule setting fuel id) := by
  cases fuel with
  | zero => exact fun _ => rfl
  | succ fuel =>
      rw [evalRule]
      split
      · exact activate_keepsFrame setting _ _
      · exact fun _ => rfl

theorem skip_keepsFrame (setting : Setting V W) {call : RuleId → Step V W Match}
    (hcall : ∀ id, Along KeepsFrame (call id)) : Along KeepsFrame (skip setting call) :=
  fun _ => ensures_skip_cases setting rfl fun id _ =>
    (hcall id _).mono (fun _ _ ht _ => ⟨ht, ht⟩) fun _ _ ht => ht

variable {setting : Setting V W} {fuel : Nat} {p : LinkedParser V W}

/-- A tree that makes no calls keeps the frame. -/
theorem evalParser_keepsFrame (hcalls : ∀ rule instanceName args,
      .nonterminal rule instanceName args ∉ p.parts) (hacts : ∀ a body, .action a body ∉ p.parts) :
    Along KeepsFrame (Parse.evalParser setting (evalRule setting fuel) p) := by
  have hpassage := keepsFrame_passage setting
  have hcall := evalRule_keepsFrame setting fuel
  exact hpassage.evalParser (evalRule_reading setting fuel) (skip_keepsFrame setting hcall)
    ⟨fun _ rule _ => hpassage.lookAhead (hcall rule.id),
      fun rule instanceName args hpart => absurd hpart (hcalls rule instanceName args),
      fun a body hpart => absurd hpart (hacts a body)⟩

end Step

/-! ### The journal tells what is stored -/

/-- What the journal of a step lists, and nothing else, is stored in the frame however the step ends,
and the calls that it lists have names of some kind. -/
structure Stores (names : String → Prop) (x : Journaled V W α) : Prop where
  frame : ∀ s, x.step.Ensures s (fun _ t => t.frame = s.frame.storeAll (x.journal s))
    fun _ t => t.frame = s.frame.storeAll (x.journal s)
  names : ∀ s, ∀ entry ∈ x.journal s, names entry.1

namespace Stores
open Step Journaled

variable {names : String → Prop} {x y : Journaled V W Match} {skip : Step V W Unit}

theorem plain {x : Step V W α} (h : Along KeepsFrame x) : Stores names (Journaled.plain x) :=
  ⟨h, fun _ _ hentry => absurd hentry List.not_mem_nil⟩

theorem bind {x : Journaled V W α} {f : α → Journaled V W β} (hx : Stores names x)
    (hf : ∀ a, Stores names (f a)) : Stores names (x >>= f) := by
  refine ⟨fun s => ?_, fun s => ?_⟩
  · have hframe := hx.frame s
    rw [step_bind, ensures_bind]
    cases hrun : x.step s with
    | ok a t =>
        have ht := hframe.of_ok hrun
        rw [ensures_iff_of_ok hrun, journal_bind_of_ok hrun, Frame.storeAll_append, ← ht]
        exact (hf a).frame t
    | error e t =>
        rw [ensures_iff_of_error hrun, journal_bind_of_error hrun]
        exact hframe.of_error hrun
  · cases hrun : x.step s with
    | ok a t =>
        rw [journal_bind_of_ok hrun, List.forall_mem_append]
        exact ⟨hx.names s, (hf a).names t⟩
    | error e t =>
        rw [journal_bind_of_error hrun]
        exact hx.names s

theorem ite {c : Prop} [Decidable c] {x y : Journaled V W α} (hx : Stores names x)
    (hy : Stores names y) : Stores names (if c then x else y) := by
  split
  · exact hx
  · exact hy

theorem pure (a : α) : Stores names (Pure.pure a : Journaled V W α) := plain fun _ => rfl

theorem place : Stores names (Journaled.plain (Step.place : Step V W Position)) := plain fun _ => rfl

theorem offset : Stores names (Journaled.plain (Step.offset : Step V W Nat)) := plain fun _ => rfl

theorem rewind (p : Position) : Stores names (Journaled.plain (Step.rewind p : Step V W Unit)) :=
  plain fun _ => rfl

theorem missAt (p : Position) : Stores names (Journaled.plain (Step.missAt p : Step V W Match)) :=
  plain fun _ => rfl

theorem matchedSince (p : Position) :
    Stores names (Journaled.plain (Step.matchedSince p : Step V W Match)) := plain fun _ => rfl

theorem keywordList (setting : Setting V W) (hx : Stores names x) (words : List String) :
    Stores names (Journaled.keywordList setting x words) :=
  place.bind fun _ => hx.bind fun _ => .ite
    (place.bind fun _ => .ite (pure _) (missAt _)) (pure _)

theorem sequence (hskip : Along KeepsFrame skip) (hx : Stores names x) (hy : Stores names y) :
    Stores names (Journaled.sequence skip x y) :=
  place.bind fun _ => hx.bind fun _ => .ite
    ((plain hskip).bind fun _ => hy.bind fun _ => .ite (matchedSince _) (missAt _)) (missAt _)

theorem alternative (hx : Stores names x) (hy : Stores names y) :
    Stores names (Journaled.alternative x y) :=
  place.bind fun _ => hx.bind fun _ => .ite (pure _)
    ((rewind _).bind fun _ => hy.bind fun _ => .ite (pure _) (missAt _))

theorem optional (hx : Stores names x) : Stores names (Journaled.optional x) :=
  place.bind fun _ => hx.bind fun _ => .ite (pure _) ((rewind _).bind fun _ => pure _)

theorem repeatMany (hskip : Along KeepsFrame skip) (hx : Stores names x) (fuel count : Nat) :
    Stores names (Journaled.repeatMany skip x fuel count) := by
  have hbefore : Along KeepsFrame (skipBefore skip count) := by
    unfold skipBefore
    split
    · exact hskip
    · exact fun _ => rfl
  induction fuel generalizing count with
  | zero => exact plain fun _ => rfl
  | succ fuel ih =>
      refine place.bind fun _ => (plain hbefore).bind fun _ => offset.bind fun _ =>
        hx.bind fun _ => offset.bind fun _ => .ite ((rewind _).bind fun _ => pure _) (ih _ ?_)
      exact hskip

theorem repeated (setting : Setting V W) (hskip : Along KeepsFrame skip) (hx : Stores names x)
    (least : Nat) : Stores names (Journaled.repeated setting skip x least) :=
  place.bind fun _ => (repeatMany hskip hx _ _).bind fun _ => .ite (missAt _) (matchedSince _)

theorem difference (hx : Stores names x) (hy : Stores names y) :
    Stores names (Journaled.difference x y) :=
  place.bind fun _ => hx.bind fun _ => .ite
    (place.bind fun _ => (rewind _).bind fun _ => hy.bind fun _ => offset.bind fun _ =>
      .ite (missAt _) ((rewind _).bind fun _ => pure _)) (pure _)

theorem exclusiveOr (hx : Stores names x) (hy : Stores names y) :
    Stores names (Journaled.exclusiveOr x y) := by
  refine place.bind fun _ => hx.bind fun _ => place.bind fun _ => (rewind _).bind fun _ =>
    hy.bind fun _ => ?_
  split
  · exact (rewind _).bind fun _ => pure _
  · exact pure _
  · exact missAt _

theorem intersection (hx : Stores names x) (hy : Stores names y) :
    Stores names (Journaled.intersection x y) :=
  place.bind fun _ => hx.bind fun _ => .ite
    (offset.bind fun _ => (rewind _).bind fun _ => hy.bind fun _ => offset.bind fun _ =>
      .ite (pure _) (missAt _)) (pure _)

theorem listTail (hskip : Along KeepsFrame skip) (hx : Stores names x) (hy : Stores names y)
    (fuel : Nat) : Stores names (Journaled.listTail skip x y fuel) := by
  induction fuel with
  | zero => exact plain fun _ => rfl
  | succ fuel ih =>
      exact place.bind fun _ => (plain hskip).bind fun _ => hy.bind fun _ => .ite
        ((plain hskip).bind fun _ => hx.bind fun _ => .ite
          (offset.bind fun _ => .ite (pure _) ih) (rewind _)) (rewind _)

theorem list (setting : Setting V W) (hskip : Along KeepsFrame skip) (hx : Stores names x)
    (hy : Stores names y) : Stores names (Journaled.list setting skip x y) :=
  place.bind fun _ => hx.bind fun _ => .ite
    ((listTail hskip hx hy _).bind fun _ => matchedSince _) (pure _)

theorem inToken (hx : Stores names x) : Stores names (Journaled.inToken x) := by
  refine ⟨fun s => ?_, fun s => hx.names _⟩
  show (Step.inToken x.step).Ensures s _ _
  rw [Step.inToken, ensures_between]
  exact hx.frame _

theorem orElse (hx : Stores names x) {otherwise : Position → Step V W Match}
    (h : ∀ start, Along KeepsFrame (otherwise start)) :
    Stores names (Journaled.orElse x otherwise) :=
  place.bind fun _ => hx.bind fun _ => .ite (pure _) (plain (h _))

/-- A call stores what its rule returns, and so the journal says. -/
theorem nonterminal (setting : Setting V W) {call : Step V W Match}
    (hcall : Along KeepsFrame call) {rule : Rule V W} {instanceName : String}
    (hname : rule.hasValue = true → names instanceName) (args : List (Argument V)) :
    Stores names (Journaled.nonterminal rule instanceName args call) := by
  have hpassage := keepsFrame_passage (V := V) (W := W) setting
  have hcalled : Along KeepsFrame (called rule args call) :=
    hpassage.bind (hpassage.pushArguments rule 0 args) fun _ => hcall
  refine ⟨fun s => ?_, fun s entry hentry => ?_⟩
  · show (Step.nonterminal rule instanceName args call).Ensures s _ _
    rw [nonterminal_eq_called]
    simp only [ensures_bind, ensures_ite, ensures_modifyFrame, ensures_pure,
      Journaled.nonterminal]
    cases hrun : called rule args call s with
    | error e t =>
        rw [ensures_iff_of_error hrun]
        exact (hcalled s).of_error hrun
    | ok m t =>
        have ht : t.frame = s.frame := (hcalled s).of_ok hrun
        rw [ensures_iff_of_ok hrun]
        cases m with
        | miss => exact ht
        | hit n =>
            rw [Match.isHit, Bool.true_and]
            cases rule.hasValue with
            | false => exact ht
            | true =>
                refine ensures_pop rule (fun v rest hv => ?_) fun hv => ?_
                · have hpeek : t.stack.peek? = some v := congrArg List.head? hv
                  simp only [hpeek, ht]
                  rfl
                · have hpeek : t.stack.peek? = none := congrArg List.head? hv
                  simp only [hpeek]
                  exact ht
  · simp only [Journaled.nonterminal] at hentry
    split at hentry
    · next n b _ =>
      split at hentry
      · next hvalue =>
        obtain ⟨v, -, rfl⟩ := List.mem_map.1 hentry
        exact hname hvalue
      · cases hentry
    · cases hentry

end Stores

variable {setting : Setting V W} {fuel : Nat} {p : LinkedParser V W}

/-- What calls in a tree without actions return is stored as the journal lists it. -/
theorem journaled_stores {names : String → Prop} (hp : p.ActionFree)
    (hnames : p.ReturnsUnder setting.Valued names) :
    Stores names (journaled setting (evalRule setting fuel) p) := by
  have hskip := Step.skip_keepsFrame setting (Step.evalRule_keepsFrame setting fuel)
  have hleaf (p : LinkedParser V W) (hparts : p.parts = [p])
      (hcall : ∀ rule instanceName args, p ≠ .nonterminal rule instanceName args)
      (hact : ∀ a body, p ≠ .action a body) :
      Stores names (.plain (evalParser setting (evalRule setting fuel) p)) := by
    refine .plain (Step.evalParser_keepsFrame (fun rule name args hpart => ?_) fun a body hpart => ?_)
    · rw [hparts] at hpart
      exact hcall rule name args (List.mem_singleton.1 hpart).symm
    · rw [hparts] at hpart
      exact hact a body (List.mem_singleton.1 hpart).symm
  induction p with
  | empty | anyChar | atEnd | char | literal | oneOf | set | range | keyword =>
      exact hleaf _ rfl nofun nofun
  | keywordList selector words ih => exact .keywordList setting (ih hp (hnames.body rfl)) words
  | sequence l r ihl ihr =>
      exact .sequence hskip (ihl hp.1 (hnames.left rfl)) (ihr hp.2 (hnames.right rfl))
  | alternative l r ihl ihr =>
      exact .alternative (ihl hp.1 (hnames.left rfl)) (ihr hp.2 (hnames.right rfl))
  | optional body ih => exact .optional (ih hp (hnames.body rfl))
  | star body ih => exact .repeated setting hskip (ih hp (hnames.body rfl)) 0
  | plus body ih => exact .repeated setting hskip (ih hp (hnames.body rfl)) 1
  | difference l r ihl ihr =>
      exact .difference (ihl hp.1 (hnames.left rfl)) (ihr hp.2 (hnames.right rfl))
  | exclusiveOr l r ihl ihr =>
      exact .exclusiveOr (ihl hp.1 (hnames.left rfl)) (ihr hp.2 (hnames.right rfl))
  | intersection l r ihl ihr =>
      exact .intersection (ihl hp.1 (hnames.left rfl)) (ihr hp.2 (hnames.right rfl))
  | list element separator ihe ihs =>
      exact .list setting hskip (ihe hp.1 (hnames.left rfl)) (ihs hp.2 (hnames.right rfl))
  | grouping body ih => exact ih hp (hnames.body rfl)
  | token body ih => exact .inToken (ih hp (hnames.body rfl))
  | expectation body ih => exact .orElse (ih hp (hnames.body rfl)) fun _ _ => rfl
  | action action body ih => exact hp.1.elim
  | nonterminal rule instanceName args =>
      unfold journaled
      split
      · next target htarget =>
        refine .nonterminal setting (Step.evalRule_keepsFrame setting fuel rule.id)
          (fun hvalue => ?_) args
        exact hnames rule instanceName args (Parser.self_mem_parts _) ⟨target, htarget, hvalue⟩
      · exact .plain fun _ => rfl

namespace Step

/-- A tree in which no call returns a value keeps the frame. -/
theorem evalParser_quiet (hp : p.ActionFree) (hquiet : p.Quiet setting.Valued) :
    Along KeepsFrame (Parse.evalParser setting (evalRule setting fuel) p) := by
  intro s
  have hstores : Stores (fun _ => False) (journaled setting (evalRule setting fuel) p) :=
    journaled_stores hp hquiet
  have hnone : (journaled setting (evalRule setting fuel) p).journal s = [] :=
    List.eq_nil_iff_forall_not_mem.2 fun entry hentry => hstores.names s entry hentry
  have hframe := hstores.frame s
  rwa [journaled_step, hnone] at hframe

/-! ### What a failure leaves -/

/-- A step that leaves the frame as it was where it misses. -/
def MissKeepsFrame (x : Step V W Match) : Prop :=
  ∀ s, x.Ensures s (fun m t => m.isHit = false → t.frame = s.frame) fun _ _ => True

section

variable {x y : Step V W Match} {gap : Step V W Unit}

theorem MissKeepsFrame.of_along (hx : Along KeepsFrame x) : MissKeepsFrame x :=
  fun s => (hx s).mono (fun _ _ ht _ => ht) fun _ _ _ => trivial

theorem MissKeepsFrame.sequence (hgap : Along KeepsFrame gap) (hx : Along KeepsFrame x)
    (hy : MissKeepsFrame y) : MissKeepsFrame (sequence gap x y) := by
  intro s
  simp only [Step.sequence, ensures_bind, ensures_place, ensures_ite, ensures_matchedSince,
    ensures_missAt]
  refine (hx s).mono (fun m t ht => ?_) fun _ _ _ => trivial
  split
  · refine (hgap t).mono (fun _ u hu => ?_) fun _ _ _ => trivial
    refine (hy u).imp fun m' v hv => ?_
    split
    · exact fun hmiss => Bool.noConfusion hmiss
    · next hmiss => exact fun _ => ((hv (Bool.eq_false_iff.2 hmiss)).trans hu).trans ht
  · exact fun _ => ht

theorem MissKeepsFrame.alternative (hx : MissKeepsFrame x) (hy : MissKeepsFrame y) :
    MissKeepsFrame (alternative x y) := by
  intro s
  simp only [Step.alternative, ensures_bind, ensures_place, ensures_ite, ensures_pure,
    ensures_rewind, ensures_missAt]
  refine (hx s).imp fun m t ht => ?_
  split
  · exact ht
  · next hmiss =>
    refine (hy _).imp fun m' u hu => ?_
    have hframe := ht (Bool.eq_false_iff.2 hmiss)
    split
    · exact fun hmiss' => (hu hmiss').trans hframe
    · next hmiss' => exact fun _ => (hu (Bool.eq_false_iff.2 hmiss')).trans hframe

theorem MissKeepsFrame.optional (x : Step V W Match) : MissKeepsFrame (optional x) := by
  intro s
  simp only [Step.optional, ensures_bind, ensures_place, ensures_ite, ensures_pure, ensures_rewind]
  refine (ensures_trivial x s).imp fun m t _ => ?_
  split
  · next hhit => exact fun hmiss => Bool.noConfusion (hhit.symm.trans hmiss)
  · exact fun hmiss => Bool.noConfusion hmiss

/-- A repetition counts no round only if the first one has missed. -/
theorem repeatMany_frame (hx : MissKeepsFrame x) (gap : Step V W Unit) (fuel count : Nat)
    (s : State V W) : (repeatMany gap x fuel count).Ensures s
      (fun k t => count ≤ k ∧ (k = 0 → t.frame = s.frame)) fun _ _ => True := by
  induction fuel generalizing count s with
  | zero => trivial
  | succ fuel ih =>
      simp only [repeatMany, ensures_bind, ensures_place, ensures_offset, ensures_ite,
        ensures_rewind, ensures_pure]
      have hgap : (skipBefore gap count).Ensures s (fun _ t => count = 0 → t = s)
          fun _ _ => True := by
        unfold skipBefore
        split
        · next hcount => exact (ensures_trivial _ _).imp fun _ _ _ hzero => by omega
        · exact fun _ => rfl
      refine hgap.imp fun _ t ht => ?_
      refine (hx t).imp fun m u hu => ?_
      split
      · refine ⟨by split <;> omega, fun hzero => ?_⟩
        split at hzero
        · omega
        · next hmiss =>
          -- Nothing has been counted, so this is the first round, which no skip comes before.
          obtain rfl := ht hzero
          exact hu (Bool.eq_false_iff.2 hmiss)
      · exact (ih (count + 1) u).imp fun k v hv => ⟨by omega, fun hzero => by omega⟩

theorem MissKeepsFrame.star (x : Step V W Match) (gap : Step V W Unit) :
    MissKeepsFrame (repeated setting gap x 0) := by
  intro s
  simp only [repeated, ensures_bind, ensures_place, ensures_ite, ensures_missAt,
    ensures_matchedSince]
  refine (ensures_trivial _ s).imp fun count t _ => ?_
  rw [if_neg (Nat.not_lt_zero count)]
  exact fun hmiss => Bool.noConfusion hmiss

theorem MissKeepsFrame.plus (hx : MissKeepsFrame x) (gap : Step V W Unit) :
    MissKeepsFrame (repeated setting gap x 1) := by
  intro s
  simp only [repeated, ensures_bind, ensures_place, ensures_ite, ensures_missAt,
    ensures_matchedSince]
  refine (repeatMany_frame hx gap _ 0 s).imp fun count t ht => ?_
  split
  · exact fun _ => ht.2 (by omega)
  · exact fun hmiss => Bool.noConfusion hmiss

theorem MissKeepsFrame.list (hx : MissKeepsFrame x) (gap : Step V W Unit) (y : Step V W Match) :
    MissKeepsFrame (list setting gap x y) := by
  intro s
  simp only [Step.list, ensures_bind, ensures_place, ensures_ite, ensures_pure,
    ensures_matchedSince]
  refine (hx s).imp fun m t ht => ?_
  split
  · exact (ensures_trivial _ t).imp fun _ _ _ hmiss => Bool.noConfusion hmiss
  · next hmiss => exact fun _ => ht (Bool.eq_false_iff.2 hmiss)

theorem MissKeepsFrame.inToken (hx : MissKeepsFrame x) : MissKeepsFrame (Step.inToken x) := by
  intro s
  rw [Step.inToken, ensures_between]
  exact hx _

theorem MissKeepsFrame.nonterminal (setting : Setting V W) {call : Step V W Match}
    (hcall : Along KeepsFrame call) (rule : Rule V W) (instanceName : String)
    (args : List (Argument V)) : MissKeepsFrame (nonterminal rule instanceName args call) := by
  intro s
  simp only [Step.nonterminal, ensures_bind, ensures_ite, ensures_modifyFrame, ensures_pure]
  refine ((keepsFrame_passage setting).pushArguments rule 0 args s).mono (fun _ t ht => ?_)
    fun _ _ _ => trivial
  refine (hcall t).mono (fun m u hu => ?_) fun _ _ _ => trivial
  split
  · next h =>
    have hhit : m.isHit = true := by simpa using And.left (Bool.and_eq_true_iff.1 h)
    exact (ensures_trivial _ u).imp fun _ _ _ hmiss => Bool.noConfusion (hhit.symm.trans hmiss)
  · exact fun _ => hu.trans ht

/-- An expectation does not miss. -/
theorem MissKeepsFrame.expectation (x : Step V W Match) (expected : String) :
    MissKeepsFrame (orElse x fun start => failExpectingHere setting expected start) := by
  intro s
  simp only [orElse, failExpectingHere, failExpecting, ensures_bind, ensures_place, ensures_ite,
    ensures_pure, ensures_fail]
  refine (ensures_trivial x s).imp fun m t _ => ?_
  split
  · next hhit => exact fun hmiss => Bool.noConfusion (hhit.symm.trans hmiss)
  · trivial

end

theorem evalParser_clean (hp : p.ActionFree) (hclean : p.Clean setting.Valued) :
    MissKeepsFrame (Parse.evalParser setting (evalRule setting fuel) p) := by
  have hskip := skip_keepsFrame setting (evalRule_keepsFrame setting fuel)
  induction p with
  | empty | anyChar | atEnd | char | literal | oneOf | set | range | keyword =>
      refine .of_along (evalParser_quiet hp fun _ _ _ hpart => ?_)
      cases List.mem_singleton.1 hpart
  | keywordList selector words ih =>
      refine .of_along (evalParser_quiet hp fun rule name args hpart => ?_)
      obtain hself | hpart := List.mem_cons.1 hpart
      · cases hself
      · exact hclean rule name args hpart
  | sequence l r ihl ihr =>
      exact .sequence hskip (evalParser_quiet hp.1 hclean.1) (ihr hp.2 hclean.2)
  | alternative l r ihl ihr => exact .alternative (ihl hp.1 hclean.1) (ihr hp.2 hclean.2)
  | optional body ih => exact .optional _
  | star body ih => exact .star _ _
  | plus body ih => exact .plus (ih hp hclean) _
  | difference l r ihl ihr | exclusiveOr l r ihl ihr | intersection l r ihl ihr =>
      refine .of_along (evalParser_quiet hp fun rule name args hpart => ?_)
      obtain hself | hpart := List.mem_cons.1 hpart
      · cases hself
      · exact (List.mem_append.1 hpart).elim (hclean.1 rule name args) (hclean.2 rule name args)
  | list element separator ihe ihs => exact .list (ihe hp.1 hclean) _ _
  | grouping body ih => exact ih hp hclean
  | token body ih => exact .inToken (ih hp hclean)
  | expectation body ih => exact .expectation _ _
  | action action body ih => exact hp.1.elim
  | nonterminal rule instanceName args =>
      rw [Parse.evalParser]
      split
      · exact .nonterminal setting (evalRule_keepsFrame setting fuel rule.id) _ _ _
      · exact fun _ => trivial

end Step

/-- A tree without actions that fails leaves the frame as it was, but for what the calls in it have
returned on the way: each value that the journal of the run lists has been stored under the name of
its call, in the order in which they came, and nothing else. The journal is that of the run that has
failed, and all that it lists was returned by calls that stand in the tree. The very same frame is
left if no such call stands where the tree can still fail. -/
theorem evalParser_miss_frame (setting : Setting V W) (fuel : Nat) {p : LinkedParser V W}
    (hp : p.ActionFree) {s t : State V W}
    (h : evalParser setting (evalRule setting fuel) p s = .ok .miss t) :
    let run := journaled setting (evalRule setting fuel) p
    run.step = evalParser setting (evalRule setting fuel) p ∧
      t.frame = s.frame.storeAll (run.journal s) ∧
      (t.frame.value = s.frame.value ∧ t.frame.inherited = s.frame.inherited ∧
        t.frame.locals = s.frame.locals) ∧
      (∀ name, t.frame.instance? name =
        ((run.journal s).reverse.lookup name).or (s.frame.instance? name)) ∧
      (∀ entry ∈ run.journal s, ∃ rule args,
        .nonterminal rule entry.1 args ∈ p.parts ∧ setting.Valued rule) ∧
      (p.Clean setting.Valued → t.frame = s.frame) := by
  intro run
  have hstep : run.step = evalParser setting (evalRule setting fuel) p := journaled_step _ _ p
  have hstores : Stores (fun name => ∃ rule args, .nonterminal rule name args ∈ p.parts ∧
      setting.Valued rule) run :=
    journaled_stores hp fun rule name args hpart hvalued => ⟨rule, args, hpart, hvalued⟩
  have hframe : t.frame = s.frame.storeAll (run.journal s) :=
    (hstores.frame s).of_ok (by rw [hstep, h])
  refine ⟨hstep, hframe, ?_, fun name => ?_, hstores.names s, fun hclean =>
    (Step.evalParser_clean hp hclean s).of_ok h rfl⟩
  · rw [hframe]
    exact Frame.storeAll_rest _ _
  · rw [hframe]
    exact Frame.instance?_storeAll _ _ name

/-- A rule that matches an `a` and returns a number. -/
def numeral (id : RuleId) (name : String) (n : Nat) : Rule Nat Unit where
  id := id
  name := name
  fullName := name
  info := name
  definition := .action ⟨"set", fun ctx => ctx.setValue n⟩ (.char 'a')
  valueType := some "Nat"
  inherited := []
  locals := []
  actions := []

def callNumeral (id : RuleId) : LinkedParser Nat Unit :=
  .nonterminal ⟨"numeral", id⟩ "number" []

/-- The text `aa`, to be parsed with two rules. -/
def numeralSetting : Setting Nat Unit :=
  ⟨#[numeral ⟨0⟩ "seven" 7, numeral ⟨1⟩ "eight" 8], ⟨#['a', 'a'], 0, "numbers"⟩, none, 0⟩

/-- Two calls of one name, each followed by something that does not match: both values have been
stored, so the second one is found afterwards. -/
theorem evalParser_miss_frame_eight :
    let p : LinkedParser Nat Unit := .alternative (.sequence (callNumeral ⟨0⟩) (.char 'x'))
      (.sequence (callNumeral ⟨1⟩) (.char 'x'))
    ∃ t, evalParser numeralSetting (evalRule numeralSetting 1) p (.start none ()) = .ok .miss t ∧
      (journaled numeralSetting (evalRule numeralSetting 1) p).journal (.start none ()) =
        [("number", 7), ("number", 8)] ∧
      t.frame.instance? "number" = some 8 ∧ t.frame.value = none := by
  intro p
  obtain ⟨-, t, hrun, rfl⟩ : ∃ m t, evalParser numeralSetting (evalRule numeralSetting 1) p
      (.start none ()) = .ok m t ∧ m = .miss := Step.Ensures.exists_ok (by decide +kernel)
  have hjournal : (journaled numeralSetting (evalRule numeralSetting 1) p).journal
    (.start none ()) = [("number", 7), ("number", 8)] := by decide +kernel
  obtain ⟨-, -, hrest, hinstances, -⟩ := evalParser_miss_frame numeralSetting 1 (p := p)
    ⟨⟨trivial, trivial⟩, trivial, trivial⟩ hrun
  refine ⟨t, hrun, hjournal, ?_, hrest.1⟩
  rw [hinstances, hjournal]
  rfl

/-- The value of a call that hit is still stored after the sequence with the call has failed. -/
theorem evalParser_miss_stale :
    let p : LinkedParser Nat Unit := .sequence (callNumeral ⟨0⟩) (.char 'x')
    p.ActionFree ∧
    ∃ t, evalParser numeralSetting (evalRule numeralSetting 1) p (.start none ()) = .ok .miss t ∧
      (State.start none () : State Nat Unit).frame.instance? "number" = none ∧
      t.frame.instance? "number" = some 7 :=
  ⟨⟨trivial, trivial⟩, _, rfl, rfl, rfl⟩

end AttrGrammar.Parse

import AttrGrammar.Parse.Eval

/-! The pure meaning of parser trees. A recognizer answers from nothing but the text that lies
ahead: it misses, or it hits so many characters at the front, or it finds that something expected
does not stand there, which ends the whole parse. There is no state to go back to and nothing to
give back; a part that is tried and dropped simply does not count. Rules call each other without end
in general, so a rule has its meaning up to a depth of nesting given as fuel, and more fuel never
changes an answer. -/

namespace AttrGrammar.Peg
open Text Scan

/-- What a recognizer finds at the front of a text; `unknown` stands for no answer for want of fuel.
-/
inductive Verdict where
  | miss
  | hit (length : Nat)
  | fatal (expected : String)
  | unknown
  deriving DecidableEq

namespace Verdict

/-- Goes on behind a hit of some length. -/
def andThen (v : Verdict) (next : Nat → Verdict) : Verdict :=
  match v with
  | hit n => next n
  | other => other

/-- Takes another verdict in place of a miss. -/
def orElse (v other : Verdict) : Verdict :=
  match v with
  | miss => other
  | found => found

/-- A hit together with the characters before it. -/
def after (v : Verdict) (before : Nat) : Verdict :=
  match v with
  | hit n => hit (before + n)
  | other => other

/-- Hits `n` characters where something else misses, and misses where it hits. -/
def negate (v : Verdict) (n : Nat) : Verdict :=
  match v with
  | hit _ => miss
  | miss => hit n
  | other => other

@[simp]
theorem andThen_hit (n : Nat) (next : Nat → Verdict) : (hit n).andThen next = next n := rfl

@[simp]
theorem andThen_miss (next : Nat → Verdict) : miss.andThen next = miss := rfl

@[simp]
theorem orElse_hit (n : Nat) (other : Verdict) : (hit n).orElse other = hit n := rfl

@[simp]
theorem orElse_miss (other : Verdict) : miss.orElse other = other := rfl

@[simp]
theorem after_hit (n before : Nat) : (hit n).after before = hit (before + n) := rfl

@[simp]
theorem after_miss (before : Nat) : miss.after before = miss := rfl

@[simp]
theorem negate_hit (m n : Nat) : (hit m).negate n = miss := rfl

@[simp]
theorem negate_miss (n : Nat) : miss.negate n = hit n := rfl

end Verdict

abbrev Recognizer := List Char → Verdict

namespace Recognizer

def nothing : Recognizer := fun _ => .hit 0

def oneChar (accept : Char → Bool) : Recognizer
  | c :: _ => if accept c then .hit 1 else .miss
  | [] => .miss

def atEnd : Recognizer
  | [] => .hit 0
  | _ => .miss

def literal (word : List Char) : Recognizer := fun w =>
  if word <+: w then .hit word.length else .miss

/-- A word that does not go on behind its end. -/
def keyword (word : List Char) (goesOn : Recognizer) : Recognizer := fun w =>
  (literal word w).andThen fun n => (goesOn (w.drop n)).negate n

def keywordList (selector : Recognizer) (words : List String) : Recognizer := fun w =>
  (selector w).andThen fun n => if String.ofList (w.take n) ∈ words then .hit n else .miss

def seq (x y : Recognizer) : Recognizer := fun w =>
  (x w).andThen fun n => (y (w.drop n)).after n

theorem seq_assoc (x y z : Recognizer) : (x.seq y).seq z = x.seq (y.seq z) := by
  funext w
  unfold seq
  cases x w with
  | hit n =>
      simp only [Verdict.andThen_hit]
      cases y (w.drop n) with
      | hit k =>
          simp only [Verdict.after_hit, Verdict.andThen_hit, List.drop_drop]
          cases z (w.drop (n + k)) with
          | hit j => rw [Verdict.after_hit, Verdict.after_hit, Verdict.after_hit, Nat.add_assoc]
          | _ => rfl
      | _ => rfl
  | _ => rfl

def choice (x y : Recognizer) : Recognizer := fun w => (x w).orElse (y w)

def optional (x : Recognizer) : Recognizer := choice x nothing

/-- Turns a miss into an error that ends the parse. -/
def expect (expected : String) (x : Recognizer) : Recognizer := choice x fun _ => .fatal expected

def difference (x y : Recognizer) : Recognizer := fun w =>
  (x w).andThen fun n =>
    match y w with
    | .hit m => if n ≤ m then .miss else .hit n
    | other => other.negate n

def exclusiveOr (x y : Recognizer) : Recognizer := fun w =>
  match x w with
  | .hit n => (y w).negate n
  | .miss => y w
  | other => other

def intersection (x y : Recognizer) : Recognizer := fun w =>
  (x w).andThen fun n => (y w).andThen fun m => if m = n then .hit n else .miss

def progress (x : Recognizer) : Recognizer := fun w =>
  match x w with
  | .hit 0 => .miss
  | other => other

/-- As many rounds, one behind the other, as hit and advance. (A round that hit more than there is
would not be one; no recognizer below does.) -/
def iterate (round : Recognizer) (w : List Char) : Verdict :=
  match round w with
  | .hit n => if 0 < n ∧ n ≤ w.length then (iterate round (w.drop n)).after n else .hit 0
  | .miss => .hit 0
  | other => other
  termination_by w.length
  decreasing_by rw [List.length_drop]; omega

theorem iterate_hit {round : Recognizer} {w : List Char} {n : Nat} (h : round w = .hit n)
    (hpos : 0 < n) (hle : n ≤ w.length) :
    iterate round w = (iterate round (w.drop n)).after n := by
  rw [iterate.eq_def, h]
  exact if_pos ⟨hpos, hle⟩

theorem iterate_empty {round : Recognizer} {w : List Char} (h : round w = .hit 0) :
    iterate round w = .hit 0 := by
  rw [iterate.eq_def, h]
  exact if_neg (by omega)

theorem iterate_miss {round : Recognizer} {w : List Char} (h : round w = .miss) :
    iterate round w = .hit 0 := by
  rw [iterate.eq_def, h]

/-- One hit and, if it is not empty, as many rounds of a gap and another hit as follow it, the gap
of a round that does not hit or is empty behind its gap being given back. -/
def plus (gap x : Recognizer) : Recognizer := fun w =>
  (x w).andThen fun n =>
    if n = 0 then .hit 0 else (iterate (gap.seq x.progress) (w.drop n)).after n

def star (gap x : Recognizer) : Recognizer := optional (plus gap x)

/-- An element and as many rounds of gap, separator, gap and element as follow it, a round that is
not complete being given back. -/
def list (gap element separator : Recognizer) : Recognizer :=
  element.seq (iterate (gap.seq (separator.seq (gap.seq element))))

end Recognizer

open Recognizer

variable {V W : Type}

/-- What lies between the parts of a sequence: the skip rule if there is one and it may run, and
otherwise nothing. While the skip rule runs it is not skipped for. -/
def gap (skipRule : Option RuleId) (call : Bool → RuleId → Recognizer) (skips : Bool) :
    Recognizer :=
  match skips, skipRule with
  | true, some id => optional (call false id)
  | _, _ => nothing

/-- The meaning of a tree whose values and actions do not matter, given what calling a rule means;
`skips` tells whether the skip rule may run. -/
def Parser.meaning (skipRule : Option RuleId) (call : Bool → RuleId → Recognizer)
    (skips : Bool) : LinkedParser V W → Recognizer
  | empty => nothing
  | anyChar => oneChar fun _ => true
  | atEnd => Recognizer.atEnd
  | char c => oneChar (· == c)
  | literal text => Recognizer.literal text.toList
  | oneOf cls => oneChar cls.admits
  | set s => oneChar s.contains
  | range first last => oneChar fun c => first ≤ c && c ≤ last
  | keyword text none => Recognizer.keyword text.toList (oneChar isIdCont)
  | keyword text (some rule) => Recognizer.keyword text.toList (call skips rule.id)
  | keywordList selector words =>
    Recognizer.keywordList (selector.meaning skipRule call skips) words
  | sequence l r =>
    (l.meaning skipRule call skips).seq
      ((gap skipRule call skips).seq (r.meaning skipRule call skips))
  | alternative l r => Recognizer.choice (l.meaning skipRule call skips) (r.meaning skipRule call skips)
  | optional body => Recognizer.optional (body.meaning skipRule call skips)
  | star body => Recognizer.star (gap skipRule call skips) (body.meaning skipRule call skips)
  | plus body => Recognizer.plus (gap skipRule call skips) (body.meaning skipRule call skips)
  | difference l r =>
    Recognizer.difference (l.meaning skipRule call skips) (r.meaning skipRule call skips)
  | exclusiveOr l r =>
    Recognizer.exclusiveOr (l.meaning skipRule call skips) (r.meaning skipRule call skips)
  | intersection l r =>
    Recognizer.intersection (l.meaning skipRule call skips) (r.meaning skipRule call skips)
  | list element separator =>
    Recognizer.list (gap skipRule call skips) (element.meaning skipRule call skips)
      (separator.meaning skipRule call skips)
  | grouping body => body.meaning skipRule call skips
  | token body => body.meaning skipRule call false
  | expectation body => expect body.render (body.meaning skipRule call skips)
  | action _ body => body.meaning skipRule call skips
  | nonterminal rule _ _ => call skips rule.id

/-- The meaning of a rule of a table, up to a depth of nesting given as fuel. -/
def ruleMeaning (rules : Array (Rule V W)) (skipRule : Option RuleId) :
    Nat → Bool → RuleId → Recognizer
  | 0, _, _ => fun _ => .unknown
  | fuel + 1, skips, id =>
    match rules[id.index]? with
    | some rule => rule.definition.meaning skipRule (ruleMeaning rules skipRule fuel) skips
    | none => fun _ => .unknown

/-! ### More fuel -/

/-- Whatever the first recognizer answers, the second answers too. -/
def Recognizer.Below (x y : Recognizer) : Prop := ∀ w, x w ≠ .unknown → y w = x w

namespace Recognizer.Below

variable {x x' y y' : Recognizer}

theorem refl (x : Recognizer) : Below x x := fun _ _ => rfl

theorem andThen {f f' : Nat → Verdict} {w : List Char} (hx : Below x x')
    (hf : ∀ n, f n ≠ .unknown → f' n = f n) (h : (x w).andThen f ≠ .unknown) :
    (x' w).andThen f' = (x w).andThen f := by
  have hxw : x w ≠ .unknown := fun hunknown => h (by rw [hunknown]; rfl)
  rw [hx w hxw]
  cases hv : x w with
  | hit n =>
      rw [hv] at h
      exact hf n h
  | _ => rfl

theorem after {w : List Char} {n : Nat} (hx : Below x x') (h : (x w).after n ≠ .unknown) :
    (x' w).after n = (x w).after n := by
  rw [hx w fun hunknown => h (by rw [hunknown]; rfl)]

theorem negate {w : List Char} {n : Nat} (hx : Below x x') (h : (x w).negate n ≠ .unknown) :
    (x' w).negate n = (x w).negate n := by
  rw [hx w fun hunknown => h (by rw [hunknown]; rfl)]

theorem keyword (word : List Char) (hx : Below x x') :
    Below (keyword word x) (keyword word x') :=
  fun _ h => andThen (.refl (Recognizer.literal word)) (fun _ => hx.negate) h

theorem keywordList (hx : Below x x') (words : List String) :
    Below (keywordList x words) (keywordList x' words) :=
  fun _ h => andThen hx (fun _ _ => rfl) h

theorem seq (hx : Below x x') (hy : Below y y') : Below (seq x y) (seq x' y') :=
  fun _ h => andThen hx (fun _ => hy.after) h

theorem choice (hx : Below x x') (hy : Below y y') : Below (choice x y) (choice x' y') := by
  intro w h
  unfold Recognizer.choice at h ⊢
  rw [hx w fun hunknown => h (by rw [hunknown]; rfl)]
  cases hv : x w with
  | miss =>
      rw [hv] at h
      exact hy w h
  | _ => rfl

theorem optional (hx : Below x x') : Below (optional x) (optional x') := hx.choice (.refl nothing)

theorem expect (expected : String) (hx : Below x x') :
    Below (expect expected x) (expect expected x') := hx.choice (.refl _)

theorem difference (hx : Below x x') (hy : Below y y') :
    Below (difference x y) (difference x' y') := by
  intro w h
  refine andThen hx (fun n hn => ?_) h
  rw [hy w fun hunknown => hn (by rw [hunknown]; rfl)]

theorem exclusiveOr (hx : Below x x') (hy : Below y y') :
    Below (exclusiveOr x y) (exclusiveOr x' y') := by
  intro w h
  unfold Recognizer.exclusiveOr at h ⊢
  rw [hx w fun hunknown => h (by rw [hunknown])]
  cases hv : x w with
  | hit n =>
      rw [hv] at h
      exact hy.negate h
  | miss =>
      rw [hv] at h
      exact hy w h
  | _ => rfl

theorem intersection (hx : Below x x') (hy : Below y y') :
    Below (intersection x y) (intersection x' y') :=
  fun _ h => andThen hx (fun _ hn => andThen hy (fun _ _ => rfl) hn) h

theorem progress (hx : Below x x') : Below (progress x) (progress x') := by
  intro w h
  unfold Recognizer.progress at h ⊢
  rw [hx w fun hunknown => h (by rw [hunknown])]

theorem iterate (hx : Below x x') : Below (iterate x) (iterate x') := by
  intro w h
  induction w using Recognizer.iterate.induct x with
  | case1 w n hv hn ih =>
      have hxw : x' w = .hit n := by rw [hx w (by rw [hv]; simp), hv]
      rw [Recognizer.iterate.eq_def, hv] at h
      rw [Recognizer.iterate.eq_def, hxw, Recognizer.iterate.eq_def x, hv]
      simp only [if_pos hn] at h ⊢
      rw [ih fun hunknown => h (by rw [hunknown]; rfl)]
  | case2 w n hv hn =>
      have hxw : x' w = .hit n := by rw [hx w (by rw [hv]; simp), hv]
      rw [Recognizer.iterate.eq_def, hxw, Recognizer.iterate.eq_def x, hv]
      simp only [if_neg hn]
  | case3 w hv =>
      have hxw : x' w = .miss := by rw [hx w (by rw [hv]; simp), hv]
      rw [Recognizer.iterate.eq_def, hxw, Recognizer.iterate.eq_def x, hv]
  | case4 w hhit hmiss =>
      rw [Recognizer.iterate.eq_def] at h
      rw [Recognizer.iterate.eq_def, Recognizer.iterate.eq_def x,
        hx w fun hunknown => h (by rw [hunknown])]
      split
      · next n hv => exact absurd hv (hhit n)
      · rfl
      · rfl

theorem plus (hx : Below x x') (hy : Below y y') : Below (plus x y) (plus x' y') := by
  intro w h
  refine andThen hy (fun n hn => ?_) h
  split
  · rfl
  · next hpos =>
    rw [if_neg hpos] at hn
    exact (hx.seq hy.progress).iterate.after hn

theorem list {g g' : Recognizer} (hg : Below g g') (hx : Below x x') (hy : Below y y') :
    Below (list g x y) (list g' x' y') :=
  hx.seq (hg.seq (hy.seq (hg.seq hx))).iterate

end Recognizer.Below

theorem Parser.meaning_below (skipRule : Option RuleId) {call call' : Bool → RuleId → Recognizer}
    (hcall : ∀ skips id, Below (call skips id) (call' skips id)) (skips : Bool)
    (p : LinkedParser V W) :
    Below (p.meaning skipRule call skips) (p.meaning skipRule call' skips) := by
  have hgap (skips : Bool) : Below (gap skipRule call skips) (gap skipRule call' skips) := by
    unfold gap
    split
    · exact (hcall false _).optional
    · exact .refl nothing
  induction p generalizing skips with
  | keyword word continuation =>
      cases continuation with
      | none => exact .refl _
      | some rule => exact (hcall skips rule.id).keyword _
  | keywordList selector words ih => exact (ih skips).keywordList words
  | sequence l r ihl ihr => exact (ihl skips).seq ((hgap skips).seq (ihr skips))
  | alternative l r ihl ihr => exact (ihl skips).choice (ihr skips)
  | optional body ih => exact (ih skips).optional
  | star body ih => exact ((hgap skips).plus (ih skips)).optional
  | plus body ih => exact (hgap skips).plus (ih skips)
  | difference l r ihl ihr => exact (ihl skips).difference (ihr skips)
  | exclusiveOr l r ihl ihr => exact (ihl skips).exclusiveOr (ihr skips)
  | intersection l r ihl ihr => exact (ihl skips).intersection (ihr skips)
  | list element separator ihe ihs => exact (hgap skips).list (ihe skips) (ihs skips)
  | grouping body ih => exact ih skips
  | token body ih => exact ih false
  | expectation body ih => exact (ih skips).expect _
  | action _ body ih => exact ih skips
  | nonterminal rule _ _ => exact hcall skips rule.id
  | _ => exact .refl _

/-- An answer that a rule has at some depth of nesting it has at every greater one. -/
theorem ruleMeaning_below (rules : Array (Rule V W)) (skipRule : Option RuleId) {fuel more : Nat}
    (h : fuel ≤ more) (skips : Bool) (id : RuleId) :
    Below (ruleMeaning rules skipRule fuel skips id)
      (ruleMeaning rules skipRule more skips id) := by
  induction fuel generalizing more skips id with
  | zero => exact fun _ hknown => absurd rfl hknown
  | succ fuel ih =>
      obtain ⟨more, rfl⟩ := Nat.exists_eq_add_of_lt h
      rw [ruleMeaning, ruleMeaning]
      split
      · exact Parser.meaning_below skipRule (fun skips id => ih (by omega) skips id) skips _
      · exact .refl _

end AttrGrammar.Peg

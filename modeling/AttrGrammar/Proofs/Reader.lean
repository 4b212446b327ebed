import AttrGrammar.Peg.Domain

/-! The meaning of parser trees together with their values. A reader is given the text that lies
ahead, the frame of the rule whose tree it is a part of, and the client's world. It hits and leaves
the text behind what it has read; or it misses; or it stops the whole parse. There is no position to
go back to, for a part that is tried and dropped leaves the text as it was. What it has done to the
frame and to the world stays done, though, and so both come with every outcome. -/

namespace AttrGrammar.Peg
open Text

/-- Why reading stops for good: something required does not stand here, an action ended the parse
with a message, activations are nested too deeply, or a value or a rule is missing that the grammar
relies on. -/
inductive Stop where
  | expected
  | raised (reason : String)
  | tooDeep
  | faulty
  deriving DecidableEq

/-- What comes of reading. A hit leaves the text behind it and a result, a miss a result of its own,
and each outcome leaves the world. -/
inductive Outcome (α μ W : Type) where
  | hit (rest : List Char) (result : α) (world : W)
  | miss (result : μ) (world : W)
  | stop (why : Stop) (world : W)

namespace Outcome

variable {α β μ ν W : Type}

/-- Goes on behind a hit. -/
def andThen (o : Outcome α μ W) (next : List Char → α → W → Outcome β μ W) : Outcome β μ W :=
  match o with
  | hit rest a u => next rest a u
  | miss m u => miss m u
  | stop why u => stop why u

/-- Goes on after a miss. -/
def orElse (o : Outcome α μ W) (other : μ → W → Outcome α ν W) : Outcome α ν W :=
  match o with
  | hit rest a u => hit rest a u
  | miss m u => other m u
  | stop why u => stop why u

/-- Changes the results. -/
def map (onHit : α → β) (onMiss : μ → ν) : Outcome α μ W → Outcome β ν W
  | hit rest a u => hit rest (onHit a) u
  | miss m u => miss (onMiss m) u
  | stop why u => stop why u

section

variable (rest : List Char) (a : α) (m : μ) (why : Stop) (u : W)

@[simp]
theorem andThen_hit (next : List Char → α → W → Outcome β μ W) :
    (hit rest a u : Outcome α μ W).andThen next = next rest a u := rfl

@[simp]
theorem andThen_miss (next : List Char → α → W → Outcome β μ W) :
    (miss m u : Outcome α μ W).andThen next = miss m u := rfl

@[simp]
theorem andThen_stop (next : List Char → α → W → Outcome β μ W) :
    (stop why u : Outcome α μ W).andThen next = stop why u := rfl

@[simp]
theorem orElse_hit (other : μ → W → Outcome α ν W) :
    (hit rest a u : Outcome α μ W).orElse other = hit rest a u := rfl

@[simp]
theorem orElse_miss (other : μ → W → Outcome α ν W) :
    (miss m u : Outcome α μ W).orElse other = other m u := rfl

@[simp]
theorem orElse_stop (other : μ → W → Outcome α ν W) :
    (stop why u : Outcome α μ W).orElse other = stop why u := rfl

@[simp]
theorem map_hit (onHit : α → β) (onMiss : μ → ν) :
    (hit rest a u : Outcome α μ W).map onHit onMiss = hit rest (onHit a) u := rfl

@[simp]
theorem map_miss (onHit : α → β) (onMiss : μ → ν) :
    (miss m u : Outcome α μ W).map onHit onMiss = miss (onMiss m) u := rfl

@[simp]
theorem map_stop (onHit : α → β) (onMiss : μ → ν) :
    (stop why u : Outcome α μ W).map onHit onMiss = stop why u := rfl

end

end Outcome

/-- The meaning of a tree. -/
abbrev Reader (V W : Type) := List Char → Frame V → W → Outcome (Frame V) (Frame V) W

/-- The meaning of a rule: it is given arguments, and after a hit it may return a value. -/
abbrev Callee (V W : Type) := List V → List Char → W → Outcome (Option V) Unit W

/-- What was read of a text when `rest` is left. -/
def consumed (w rest : List Char) : List Char := w.take (w.length - rest.length)

@[simp]
theorem consumed_append (front rest : List Char) : consumed (front ++ rest) rest = front := by
  simp [consumed]

variable {V W ρ ρ' α α' : Type}

/-- A whole text as a slice. -/
def wholeText (text : List Char) : Slice :=
  ⟨text.toArray, 0, text.toArray.size, Nat.zero_le _, Nat.le_refl _⟩

@[simp]
theorem toList_wholeText (text : List Char) : (wholeText text).toList = text := by
  simp [wholeText, Slice.toList, Slice.toArray]

/-- What an action is given that has regard to its text, but not to where that stands. -/
def ActionContext.of (frame : Frame V) (text : List Char) (world : W) : ActionContext V W :=
  { frame, text := wholeText text, span := .emptyAt 0 .start, fileName := "", pass := true
    error := none, world }

namespace Reader

def nothing : Reader V W := fun w f u => .hit w f u

def oneChar (accept : Char → Bool) : Reader V W := fun w f u =>
  match w with
  | c :: rest => if accept c then .hit rest f u else .miss f u
  | [] => .miss f u

def atEnd : Reader V W := fun w f u =>
  match w with
  | [] => .hit [] f u
  | _ => .miss f u

def literal (word : List Char) : Reader V W := fun w f u =>
  if word <+: w then .hit (w.drop word.length) f u else .miss f u

/-- A word that does not go on behind its end. What is read to find out is given back. -/
def keyword (word : List Char) (goesOn : Reader V W) : Reader V W := fun w f u =>
  (literal word w f u).andThen fun rest f u =>
    match goesOn rest f u with
    | .hit _ f u => .miss f u
    | .miss f u => .hit rest f u
    | .stop why u => .stop why u

def keywordList (selector : Reader V W) (words : List String) : Reader V W := fun w f u =>
  (selector w f u).andThen fun rest f u =>
    if String.ofList (consumed w rest) ∈ words then .hit rest f u else .miss f u

def seq (x y : Reader V W) : Reader V W := fun w f u => (x w f u).andThen y

theorem seq_assoc (x y z : Reader V W) : (x.seq y).seq z = x.seq (y.seq z) := by
  funext w f u
  unfold seq
  cases x w f u <;> rfl

@[simp]
theorem nothing_seq (x : Reader V W) : nothing.seq x = x := rfl

def choice (x y : Reader V W) : Reader V W := fun w f u => (x w f u).orElse (y w)

def optional (x : Reader V W) : Reader V W := choice x nothing

/-- Stops where something is missing. -/
def expect (x : Reader V W) : Reader V W := choice x fun _ _ u => .stop .expected u

def difference (x y : Reader V W) : Reader V W := fun w f u =>
  (x w f u).andThen fun rest f u =>
    match y w f u with
    | .hit rest' f u => if rest'.length ≤ rest.length then .miss f u else .hit rest f u
    | .miss f u => .hit rest f u
    | .stop why u => .stop why u

def exclusiveOr (x y : Reader V W) : Reader V W := fun w f u =>
  match x w f u with
  | .hit rest f u =>
    match y w f u with
    | .hit _ f u => .miss f u
    | .miss f u => .hit rest f u
    | .stop why u => .stop why u
  | .miss f u => y w f u
  | .stop why u => .stop why u

def intersection (x y : Reader V W) : Reader V W := fun w f u =>
  (x w f u).andThen fun rest f u =>
    (y w f u).andThen fun rest' f u =>
      if rest'.length = rest.length then .hit rest f u else .miss f u

/-- Misses where nothing is read. -/
def progress (x : Reader V W) : Reader V W := fun w f u =>
  (x w f u).andThen fun rest f u => if rest.length < w.length then .hit rest f u else .miss f u

/-- As many rounds as hit and advance. The text of a round that does neither is given back. -/
def iterate (round : Reader V W) (w : List Char) (f : Frame V) (u : W) :
    Outcome (Frame V) (Frame V) W :=
  match round w f u with
  | .hit rest f u => if rest.length < w.length then iterate round rest f u else .hit w f u
  | .miss f u => .hit w f u
  | .stop why u => .stop why u
  termination_by w.length

section

variable {round : Reader V W} {w rest : List Char} {f f' : Frame V} {u u' : W}

theorem iterate_hit (h : round w f u = .hit rest f' u') (hlt : rest.length < w.length) :
    iterate round w f u = iterate round rest f' u' := by
  rw [iterate.eq_def, h]
  exact if_pos hlt

theorem iterate_still (h : round w f u = .hit rest f' u') (hle : w.length ≤ rest.length) :
    iterate round w f u = .hit w f' u' := by
  rw [iterate.eq_def, h]
  exact if_neg (Nat.not_lt.2 hle)

theorem iterate_miss (h : round w f u = .miss f' u') : iterate round w f u = .hit w f' u' := by
  rw [iterate.eq_def, h]

theorem iterate_stop {why : Stop} (h : round w f u = .stop why u') :
    iterate round w f u = .stop why u' := by
  rw [iterate.eq_def, h]

end

/-- One hit and, if it reads something, as many rounds of a gap and another hit as follow it. -/
def plus (gap x : Reader V W) : Reader V W := fun w f u =>
  (x w f u).andThen fun rest f u =>
    if rest.length < w.length then iterate (seq gap x.progress) rest f u else .hit w f u

def star (gap x : Reader V W) : Reader V W := optional (plus gap x)

/-- An element and as many rounds of gap, separator, gap and element as follow it. -/
def list (gap element separator : Reader V W) : Reader V W :=
  seq element (iterate (seq gap (seq separator (seq gap element))))

/-- Runs an action on what was read. -/
def action (run : ActionContext V W → ActionContext V W) (x : Reader V W) : Reader V W :=
  fun w f u => (x w f u).andThen fun rest f u =>
    let done := run (.of f (consumed w rest) u)
    match done.error with
    | some reason => .stop (.raised reason) done.world
    | none => if done.pass then .hit rest done.frame done.world else .miss done.frame done.world

/-- Calls a rule and stores the value it returns under the name of the call. -/
def nonterminal (call : Callee V W) (instanceName : String) (args : List (Argument V)) :
    Reader V W := fun w f u =>
  match args.mapM (· f) with
  | some values => (call values w u).map (fun v => v.elim f (f.setInstance instanceName)) fun _ => f
  | none => .stop .faulty u

/-- Calls a rule that takes no arguments, for what it reads alone. -/
def test (call : Callee V W) : Reader V W := fun w f u =>
  (call [] w u).map (fun _ => f) fun _ => f

/-- What lies between the parts of a sequence: the skip rule if there is one and it may run. While
the skip rule runs it is not skipped for. -/
def gap (skipRule : Option ρ) (call : Bool → ρ → Callee V W) (skips : Bool) : Reader V W :=
  match skips, skipRule with
  | true, some rule => optional (test (call false rule))
  | _, _ => nothing

/-- Without a skip rule nothing lies between the parts of a sequence. -/
@[simp]
theorem gap_none (call : Bool → ρ → Callee V W) (skips : Bool) : gap none call skips = nothing := by
  cases skips <;> rfl

theorem gap_map {σ : Type} (f : ρ → σ) (skipRule : Option ρ) (call : Bool → σ → Callee V W)
    (skips : Bool) :
    gap (skipRule.map f) call skips = gap skipRule (fun skips rule => call skips (f rule)) skips := by
  cases skips <;> cases skipRule <;> rfl

end Reader

/-! ### Trees and rules -/

namespace Parser

/-- The meaning of a tree, given what a gap, calling a rule and running an action mean; `skips` tells
whether the skip rule may run. -/
def reader (gap : Bool → Reader V W) (call : Bool → ρ → Callee V W)
    (run : α → ActionContext V W → ActionContext V W) (skips : Bool) :
    Parser V ρ α → Reader V W
  | empty => .nothing
  | anyChar => .oneChar fun _ => true
  | atEnd => .atEnd
  | char c => .oneChar (· == c)
  | literal text => .literal text.toList
  | oneOf cls => .oneChar cls.admits
  | set s => .oneChar s.contains
  | range first last => .oneChar fun c => first ≤ c && c ≤ last
  | keyword text none => .keyword text.toList (.oneChar isIdCont)
  | keyword text (some rule) => .keyword text.toList (.test (call skips rule))
  | keywordList selector words => .keywordList (selector.reader gap call run skips) words
  | sequence l r =>
    .seq (l.reader gap call run skips) (.seq (gap skips) (r.reader gap call run skips))
  | alternative l r => .choice (l.reader gap call run skips) (r.reader gap call run skips)
  | optional body => .optional (body.reader gap call run skips)
  | star body => .star (gap skips) (body.reader gap call run skips)
  | plus body => .plus (gap skips) (body.reader gap call run skips)
  | difference l r => .difference (l.reader gap call run skips) (r.reader gap call run skips)
  | exclusiveOr l r => .exclusiveOr (l.reader gap call run skips) (r.reader gap call run skips)
  | intersection l r => .intersection (l.reader gap call run skips) (r.reader gap call run skips)
  | list element separator =>
    .list (gap skips) (element.reader gap call run skips) (separator.reader gap call run skips)
  | grouping body => body.reader gap call run skips
  | token body => body.reader gap call run false
  | expectation body => .expect (body.reader gap call run skips)
  | action a body => .action (run a) (body.reader gap call run skips)
  | nonterminal rule instanceName args => .nonterminal (call skips rule) instanceName args

/-- Replaces the references and the actions of a tree. -/
def map (onRule : ρ → ρ') (onAction : α → α') : Parser V ρ α → Parser V ρ' α'
  | empty => empty
  | anyChar => anyChar
  | atEnd => atEnd
  | char c => char c
  | literal text => literal text
  | oneOf cls => oneOf cls
  | set s => set s
  | range first last => range first last
  | keyword text continuation => keyword text (continuation.map onRule)
  | keywordList selector words => keywordList (selector.map onRule onAction) words
  | sequence l r => sequence (l.map onRule onAction) (r.map onRule onAction)
  | alternative l r => alternative (l.map onRule onAction) (r.map onRule onAction)
  | optional body => optional (body.map onRule onAction)
  | star body => star (body.map onRule onAction)
  | plus body => plus (body.map onRule onAction)
  | difference l r => difference (l.map onRule onAction) (r.map onRule onAction)
  | exclusiveOr l r => exclusiveOr (l.map onRule onAction) (r.map onRule onAction)
  | intersection l r => intersection (l.map onRule onAction) (r.map onRule onAction)
  | list element separator => list (element.map onRule onAction) (separator.map onRule onAction)
  | grouping body => grouping (body.map onRule onAction)
  | token body => token (body.map onRule onAction)
  | expectation body => expectation (body.map onRule onAction)
  | action a body => action (onAction a) (body.map onRule onAction)
  | nonterminal rule instanceName args => nonterminal (onRule rule) instanceName args

/-- What the names of a tree are does not matter, but what they mean does. -/
theorem reader_map (gap : Bool → Reader V W) (call : Bool → ρ' → Callee V W)
    (run : α' → ActionContext V W → ActionContext V W) (onRule : ρ → ρ') (onAction : α → α')
    (skips : Bool) (p : Parser V ρ α) :
    (p.map onRule onAction).reader gap call run skips =
      p.reader gap (fun skips rule => call skips (onRule rule)) (fun a => run (onAction a)) skips := by
  induction p generalizing skips with
  | keyword text continuation => cases continuation <;> rfl
  | _ => simp only [map, reader, *]

end Parser

/-- The meaning of a rule, given that of its tree: a frame of its own, in which the arguments are
bound, and the value that the tree leaves there. -/
def activation (locals inherited : List String) (hasValue : Bool) (tree : Reader V W) :
    Callee V W := fun args w u =>
  match tree w ((Frame.ofLocals locals).bindInherited inherited args) u with
  | .hit rest f u =>
    if hasValue then
      match f.value with
      | some v => .hit rest (some v) u
      | none => .stop .faulty u
    else .hit rest none u
  | .miss _ u => .miss () u
  | .stop why u => .stop why u

/-- The meaning of a rule of a table where only so many activations may be nested. -/
def ruleReader (rules : Array (Rule V W)) (skipRule : Option RuleId) :
    Nat → Bool → RuleId → Callee V W
  | 0, _, _ => fun _ _ u => .stop .tooDeep u
  | levels + 1, skips, id =>
    let call := ruleReader rules skipRule levels
    match rules[id.index]? with
    | some rule =>
      activation rule.locals rule.inherited rule.hasValue <|
        rule.definition.reader (.gap skipRule call) (fun skips target => call skips target.id)
          Action.run skips
    | none => fun _ _ u => .stop .faulty u

/-! ### Rules by their names -/

/-- What the action of a name does; nothing, if there is none. -/
def RuleDecl.perform (decl : RuleDecl V W) (name : String) :
    ActionContext V W → ActionContext V W :=
  ((decl.actions.find? (·.name == name)).map Action.run).getD id

/-- The meaning of a rule by its name among declared ones, given what calling these means. -/
def calleeOf (decls : List (RuleDecl V W)) (skipRule : Option String)
    (call : Bool → String → Callee V W) (skips : Bool) (name : String) : Callee V W :=
  match decls.find? (·.name == name) with
  | some decl =>
    activation decl.locals decl.inherited decl.valueType.isSome <|
      decl.definition.reader (.gap skipRule call) call decl.perform skips
  | none => fun _ _ u => .stop .faulty u

/-- The same where declared rules can call each other, but only so many activations deep. -/
def declReader (decls : List (RuleDecl V W)) (skipRule : Option String) :
    Nat → Bool → String → Callee V W
  | 0, _, _ => fun _ _ u => .stop .tooDeep u
  | levels + 1, skips, name => calleeOf decls skipRule (declReader decls skipRule levels) skips name

/-- The place of a name among declared rules, and behind all of them for any other name. -/
def RuleDecl.place (decls : List (RuleDecl V W)) (name : String) : RuleId :=
  .ofNat (decls.findIdx (·.name == name))

/-- A tree as linking leaves it where its names mean rules of a list, each at its place there. -/
def RuleDecl.linkedIn (decl : RuleDecl V W) (decls : List (RuleDecl V W)) : LinkedParser V W :=
  decl.definition.map (fun name => ⟨name, place decls name⟩) fun name => ⟨name, decl.perform name⟩

/-- A rule table that holds declared rules in their order, with no name that leads elsewhere. -/
structure Tabulates (rules : Array (Rule V W)) (decls : List (RuleDecl V W)) : Prop where
  short : decls.length < UInt32.size
  entries : rules.toList.map (fun rule =>
      (rule.locals, rule.inherited, rule.valueType, rule.definition)) =
    decls.map fun decl => (decl.locals, decl.inherited, decl.valueType, decl.linkedIn decls)

namespace Tabulates

variable {rules : Array (Rule V W)} {decls : List (RuleDecl V W)}

theorem index_place (h : Tabulates rules decls) (name : String) :
    (RuleDecl.place decls name).index = decls.findIdx (·.name == name) :=
  RuleId.index_ofNat (Nat.lt_of_le_of_lt List.findIdx_le_length h.short)

/-- The rule at the place of a name is the one that was declared. -/
theorem rule_at (h : Tabulates rules decls) (name : String) :
    rules[(RuleDecl.place decls name).index]?.map (fun rule =>
        (rule.locals, rule.inherited, rule.valueType, rule.definition)) =
      (decls.find? (·.name == name)).map fun decl =>
        (decl.locals, decl.inherited, decl.valueType, decl.linkedIn decls) := by
  rw [h.index_place, ← Array.getElem?_toList, ← List.getElem?_map, h.entries, List.getElem?_map,
    List.find?_eq_getElem?_findIdx]

/-- Under a name that is declared stands a rule with what was declared. -/
theorem exists_rule (h : Tabulates rules decls) {name : String} {decl : RuleDecl V W}
    (hdecl : decls.find? (·.name == name) = some decl) :
    ∃ rule, rules[(RuleDecl.place decls name).index]? = some rule ∧ rule.locals = decl.locals ∧
      rule.inherited = decl.inherited ∧ rule.valueType = decl.valueType ∧
      rule.definition = decl.linkedIn decls := by
  have hat := h.rule_at name
  rw [hdecl, Option.map_some, Option.map_eq_some_iff] at hat
  obtain ⟨rule, hrule, hparts⟩ := hat
  simp only [Prod.mk.injEq] at hparts
  exact ⟨rule, hrule, hparts⟩

/-- Every rule in the table is a declared one. -/
theorem declared (h : Tabulates rules decls) {i : Nat} {rule : Rule V W}
    (hrule : rules[i]? = some rule) : ∃ decl ∈ decls, rule.definition = decl.linkedIn decls := by
  have hentry := congrArg (·[i]?) h.entries
  simp only [List.getElem?_map, Array.getElem?_toList, hrule, Option.map_some] at hentry
  obtain ⟨decl, hdecl, hparts⟩ := Option.map_eq_some_iff.1 hentry.symm
  simp only [Prod.mk.injEq] at hparts
  exact ⟨decl, List.mem_of_getElem? hdecl, hparts.2.2.2.symm⟩

end Tabulates

/-- In such a table a rule means the same by its place as by its name. -/
theorem ruleReader_place {rules : Array (Rule V W)} {decls : List (RuleDecl V W)}
    (h : Tabulates rules decls) (skipRule : Option String) (levels : Nat) (skips : Bool)
    (name : String) :
    ruleReader rules (skipRule.map (RuleDecl.place decls)) levels skips
      (RuleDecl.place decls name) = declReader decls skipRule levels skips name := by
  induction levels generalizing skips name with
  | zero => rfl
  | succ levels ih =>
      have hcall : (fun skips name => ruleReader rules (skipRule.map (RuleDecl.place decls)) levels
          skips (RuleDecl.place decls name)) = declReader decls skipRule levels :=
        funext fun skips => funext fun name => ih skips name
      simp only [ruleReader, declReader, calleeOf]
      cases hdecl : decls.find? (·.name == name) with
      | none =>
          have hnone := h.rule_at name
          rw [hdecl, Option.map_none, Option.map_eq_none_iff] at hnone
          rw [hnone]
      | some decl =>
          obtain ⟨rule, hat, hlocals, hinherited, hvalue, hdefinition⟩ := h.exists_rule hdecl
          rw [hat]
          simp only [Rule.hasValue, hlocals, hinherited, hvalue, hdefinition, RuleDecl.linkedIn,
            Parser.reader_map, funext (Reader.gap_map _ _ _), hcall]

end AttrGrammar.Peg

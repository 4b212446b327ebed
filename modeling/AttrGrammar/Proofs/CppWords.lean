import AttrGrammar.Proofs.CppSkipping
import AttrGrammar.Proofs.CppWriting

/-! Keywords and names share out the words between them. At every place of a text the longest word
ahead is either a keyword, which the parser of that keyword and no other takes, or a name, which the
rule for names takes; where no word begins none of them takes anything. The parser of a keyword looks
for its letters and then at the one character behind them, the rule for names reads a word and
compares all of it with a list. -/

namespace AttrGrammar.Parse.Step
open Text Scan Peg

variable {V W : Type}

/-- The match of a step that takes so many characters, or none at all. -/
def taking : Option (List Char) → Match
  | some word => .hit word.length
  | none => .miss

/-- From the state `s` the step comes to its end: it hits exactly the characters of `front`, or it
misses where there is none. -/
def Takes (x : Step V W Match) (s : State V W) (front : Option (List Char)) : Prop :=
  ∃ t, x s = .ok (taking front) t ∧
    t.scanner.offset = s.scanner.offset + (taking front).length

variable {x : Step V W Match} {s t : State V W} {front : Option (List Char)}

theorem taking_eq_miss_iff : taking front = .miss ↔ front = none := by
  cases front with
  | none => exact iff_of_true rfl rfl
  | some word => exact iff_of_false Match.noConfusion (Option.some_ne_none word)

theorem Takes.eq_miss_iff (h : x.Takes s front) {m : Match} (hrun : x s = .ok m t) :
    m = .miss ↔ front = none := by
  obtain ⟨u, hu, -⟩ := h
  cases hrun.symm.trans hu
  exact taking_eq_miss_iff

theorem Takes.misses_iff (h : x.Takes s front) : (∃ u, x s = .ok .miss u) ↔ front = none := by
  obtain ⟨u, hu, -⟩ := h
  rw [← taking_eq_miss_iff]
  constructor
  · rintro ⟨v, hv⟩
    injection hu.symm.trans hv
  · intro hmiss
    exact ⟨u, hmiss ▸ hu⟩

theorem Takes.of_reading {text : Buffer} (hreading : Reading text x)
    (hrun : x s = .ok (taking front) t) : x.Takes s front :=
  ⟨t, hrun, ((hreading s).of_ok hrun).offset⟩

/-- The text begins with the word, and the character behind it does not go on with it. -/
def Stands (word ahead : List Char) : Prop :=
  word <+: ahead ∧ Reader.Ends isIdCont (ahead.drop word.length)

theorem peek_any (s : State V W) (text : Buffer) :
    (s.scanner.cursor.peek? text).any isIdCont = (s.rest text).head?.any isIdCont := by
  cases hc : text[s.scanner.offset]? with
  | none =>
      rw [rest_eq_nil hc, show s.scanner.cursor.peek? text = none from hc]
      rfl
  | some c =>
      rw [rest_eq_cons hc, show s.scanner.cursor.peek? text = some c from hc]
      rfl

/-- The parser of a word hits the word where it stands, misses elsewhere, and does not fail. -/
theorem ensures_keyword (setting : Setting V W) (word : List Char)
    (hs : s.scanner.offset ≤ setting.source.text.size) :
    (keyword setting word (seesIdCont setting)).Ensures s
      (fun m _ => Stands word (s.rest setting.source.text) ∧ m = .hit word.length ∨
        ¬ Stands word (s.rest setting.source.text) ∧ m = .miss)
      fun _ _ => False := by
  simp only [keyword, seesWord, seesIdCont, ensures_bind, ensures_get, ensures_pure, ensures_ite,
    ensures_place, ensures_scan, ensures_missAt, peek_any]
  split
  · next h =>
    have hword := (startsWith_iff word).1 h
    rw [((reads_word h).past hs).rest]
    split
    · next hgoesOn =>
      refine .inr ⟨fun hstands => ?_, trivial⟩
      exact Bool.noConfusion (hstands.2.any_head?.symm.trans hgoesOn)
    · next hends =>
      exact .inl ⟨⟨hword, Reader.ends_iff_any_head?.2 (Bool.eq_false_iff.2 hends)⟩, trivial⟩
  · next h =>
    exact .inr ⟨fun hstands => h ((startsWith_iff word).2 hstands.1), trivial⟩

end AttrGrammar.Parse.Step

namespace AttrGrammar.Cpp
open Text Scan Peg Parse
open Reader

/-! ### Words -/

/-- The longest word that a text begins with; none where it begins with no word. -/
def LongestWord (ahead : List Char) : Option (List Char) → Prop
  | none => ∀ word, word <+: ahead → ¬ IsWord word
  | some word => IsWord word ∧ word <+: ahead ∧
      ∀ other, other <+: ahead → IsWord other → other.length ≤ word.length

/-- The first lexeme where it is a word. -/
def wordAhead (w : List Char) : Option (List Char) :=
  if w.head?.any isIdStart then some (firstLexeme w) else none

theorem longestWord_wordAhead (w : List Char) : LongestWord w (wordAhead w) := by
  unfold wordAhead
  split
  · next hstart =>
    obtain ⟨c, w, rfl⟩ : ∃ c t, w = c :: t :=
      List.exists_cons_of_ne_nil (by rintro rfl; cases hstart)
    have hfirst : firstLexeme (c :: w) = c :: w.takeWhile isIdCont := firstLexeme_word hstart w
    refine ⟨?_, firstLexeme_begins _, fun other hother hword => ?_⟩
    · rw [hfirst]
      exact ⟨hstart, fun d hd => List.mem_takeWhile_imp hd⟩
    · obtain ⟨rest, hrest⟩ := hother
      cases other with
      | nil => exact Nat.zero_le _
      | cons d more =>
          obtain ⟨rfl, rfl⟩ := List.cons.inj hrest
          have htake : (more ++ rest).takeWhile isIdCont = more ++ rest.takeWhile isIdCont :=
            List.takeWhile_append_of_pos hword.goesOn
          have hlength := congrArg List.length htake
          rw [List.length_append] at hlength
          rw [hfirst, List.length_cons, List.length_cons]
          exact Nat.succ_le_succ (hlength ▸ Nat.le_add_right _ _)
  · next hstart =>
    rintro word ⟨rest, rfl⟩ hword
    exact hstart (any_head?_append hword.start)

/-- There is only one longest word. -/
theorem LongestWord.eq_wordAhead {w : List Char} {word : Option (List Char)} (h : LongestWord w word) :
    word = wordAhead w := by
  have hahead := longestWord_wordAhead w
  cases word with
  | none =>
    cases hword : wordAhead w with
    | none => rfl
    | some other =>
      rw [hword] at hahead
      exact absurd hahead.1 (h other hahead.2.1)
  | some word =>
    cases hother : wordAhead w with
    | none =>
      rw [hother] at hahead
      exact absurd h.1 (hahead word h.2.1)
    | some other =>
      rw [hother] at hahead
      have hlength : word.length = other.length :=
        Nat.le_antisymm (hahead.2.2 word h.2.1 h.1) (h.2.2 other hahead.2.1 hahead.1)
      rw [List.prefix_iff_eq_take.1 h.2.1, List.prefix_iff_eq_take.1 hahead.2.1, hlength]

theorem isWord_keyword {k : String} (hk : k ∈ keywords) : IsWord k.toList :=
  ⟨(keywords_spec k hk).1, List.all_eq_true.1 (keywords_spec k hk).2⟩

/-- A word stands at the beginning of a text, and ends there, where it is the longest one. -/
theorem stands_iff {word : List Char} (hword : IsWord word) (w : List Char) :
    Step.Stands word w ↔ wordAhead w = some word := by
  constructor
  · rintro ⟨⟨rest, rfl⟩, hends⟩
    rw [List.drop_left] at hends
    rw [wordAhead, if_pos (any_head?_append hword.start),
      firstLexeme_word_append hword.start hword.goesOn hends]
  · intro h
    obtain ⟨hstart, rfl⟩ : w.head?.any isIdStart ∧ firstLexeme w = word := by
      unfold wordAhead at h
      split at h
      · next hstart => exact ⟨hstart, Option.some.inj h⟩
      · cases h
    refine ⟨firstLexeme_begins w, ?_⟩
    cases w with
    | nil => cases hstart
    | cons c w =>
        show Ends isIdCont (behindLexeme (c :: w))
        rw [behindLexeme_word hstart]
        exact ends_dropWhile isIdCont w

/-! ### Keywords -/

theorem takes_keyword (setting : Setting Value Unit) {s : State Value Unit}
    (hs : s.scanner.offset ≤ setting.source.text.size) {k : String} (hk : k ∈ keywords)
    (call : RuleId → Step Value Unit Match) :
    (evalParser setting call (.keyword k none)).Takes s
      ((wordAhead (s.rest setting.source.text)).filter (· = k.toList)) := by
  have hstands := stands_iff (isWord_keyword hk) (s.rest setting.source.text)
  have hended := Step.ensures_keyword setting k.toList hs
  cases hrun : Step.keyword setting k.toList (.seesIdCont setting) s with
  | error e t => exact (hended.of_error hrun).elim
  | ok m t =>
    obtain rfl : m = Step.taking
        ((wordAhead (s.rest setting.source.text)).filter (· = k.toList)) := by
      obtain ⟨hword, rfl⟩ | ⟨hword, rfl⟩ := hended.of_ok hrun
      · rw [hstands.1 hword, Option.filter_some, if_pos (decide_eq_true rfl)]
        rfl
      · refine (Step.taking_eq_miss_iff.2 (Option.filter_eq_none_iff.2 ?_)).symm
        rintro word hahead hsame
        rw [decide_eq_true_iff] at hsame
        exact hword (hstands.2 (hsame ▸ hahead))
    exact .of_reading (.keyword (.seesIdCont setting) k.toList) hrun

/-! ### Names -/

/-- The place of the rule for names. -/
def identifier : RuleId := RuleDecl.place allRules "Identifier"

theorem rule_identifier (config : Config) :
    ∃ rule, (domain config).rules[identifier.index]? = some rule ∧ rule.name = "Identifier" ∧
      rule.inherited = [] := by
  have hat : (domain config).rules[identifier.index]?.map (fun rule =>
      (rule.name, rule.inherited)) = some ("Identifier", []) := by rfl
  obtain ⟨rule, hrule, hparts⟩ := Option.map_eq_some_iff.1 hat
  simp only [Prod.mk.injEq] at hparts
  exact ⟨rule, hrule, hparts⟩

theorem filter_wordAhead (w : List Char) :
    (wordAhead w).filter (String.ofList · ∉ keywords) =
      if w.head?.any isIdStart ∧ String.ofList (firstLexeme w) ∉ keywords then some (firstLexeme w)
      else none := by
  unfold wordAhead
  by_cases hstart : w.head?.any isIdStart
  · rw [if_pos hstart, Option.filter_some]
    simp only [decide_eq_true_eq, true_and, hstart]
  · rw [if_neg hstart, if_neg fun h => hstart h.1]
    rfl

/-- A word is a name where it is none of the keywords. -/
theorem filter_names_iff (word : Option (List Char)) :
    word.filter (String.ofList · ∉ keywords) ≠ none ↔
      word ≠ none ∧ ∀ k ∈ keywords, word.filter (· = k.toList) = none := by
  cases word with
  | none => simp
  | some word =>
    simp only [ne_eq, Option.filter_eq_none_iff, Option.some.injEq, forall_eq', decide_eq_true_eq,
      reduceCtorEq, not_false_eq_true, true_and, not_not]
    constructor
    · rintro hfree k hk rfl
      exact hfree (String.ofList_toList ▸ hk)
    · intro hfree hkeyword
      exact hfree _ hkeyword String.toList_ofList.symm

/-- A step that goes behind the first lexeme hits so many characters. -/
theorem length_of_behindLexeme {text : Buffer} {s t : State Value Unit} {n : Nat}
    (hpast : Past text s n t) (h : behindLexeme (s.rest text) = t.rest text) :
    n = (firstLexeme (s.rest text)).length := by
  have hle := hpast.length_le
  have hfirst := (firstLexeme_begins (s.rest text)).length_le
  have hlength := congrArg List.length h
  rw [behindLexeme, hpast.rest, List.length_drop, List.length_drop] at hlength
  omega

/-- Without a trace the rule for names takes the longest word, if that is no keyword. -/
theorem Spaced.takes_identifier {setting : Setting Value Unit} {s : State Value Unit}
    (h : Spaced setting) (fuel : Nat) {rule : Rule Value Unit}
    (hrule : setting.rules[identifier.index]? = some rule) (hinherited : rule.inherited = [])
    (hs : s.scanner.offset ≤ setting.source.text.size) (huntraced : s.scanner.log = none)
    (hadmitted : ¬ setting.Refuses s.depth) :
    (evalRule setting (fuel + 1) identifier).Takes s
      ((wordAhead (s.rest setting.source.text)).filter (String.ofList · ∉ keywords)) := by
  obtain ⟨levels, hmeans⟩ := h.answers_rule fuel s.skips hrule hadmitted
  have hended := hmeans.outcome s [] s.stack.values ⟨hs, rfl, rfl, huntraced⟩
    (by rw [hinherited]; rfl) rfl
  have hname := readName_eq [] (s.rest setting.source.text) s.world
  cases hrun : evalRule setting (fuel + 1) identifier s with
  | error e t =>
    have hstop := hname.symm.trans (hended.of_error hrun)
    split at hstop <;> cases hstop
  | ok m t =>
    obtain ⟨-, -, value, -, -, hvalue⟩ := hended.of_ok hrun
    have hreads := (hmeans.reading s).of_ok hrun
    have hanswer := hname.symm.trans hvalue
    obtain rfl : m = Step.taking ((wordAhead (s.rest setting.source.text)).filter
        (String.ofList · ∉ keywords)) := by
      rw [filter_wordAhead]
      split at hanswer
      · next hword =>
        rw [if_pos hword]
        cases m with
        | miss => cases hanswer
        | hit n =>
          injection hanswer with hbehind
          exact congrArg Match.hit (length_of_behindLexeme (hreads.past hs) hbehind)
      · next hword =>
        rw [if_neg hword]
        cases m with
        | miss => rfl
        | hit n => cases hanswer
    exact .of_reading hmeans.reading hrun

/-- Keywords and names share out the words. At every place of a text, for either grammar and from any
state, the parser of each keyword takes the longest word ahead if that is this keyword, and the rule
for names takes it if it is none of them; where they do not take it they miss. So the rule for names
hits exactly where a word stands and the parsers of all keywords miss. Like any other rule it is
refused where no more activations may be opened, and a trace that fails breaks it off. -/
theorem keywords_and_names {config : Config} {g : Grammar} (hg : g ∈ (domain config).grammars)
    (text : Buffer) (options : Options Value) (fuel : Nat) (s : State Value Unit)
    (hs : s.scanner.offset ≤ text.size) :
    let setting := settingFor (domain config) g text options
    let keyword k call := evalParser setting call (.keyword k none)
    let name := evalRule setting (fuel + 1) identifier
    ∃ rule word, setting.rules[identifier.index]? = some rule ∧ rule.name = "Identifier" ∧
      LongestWord (s.rest text) word ∧
      (∀ k ∈ keywords, ∀ call, (keyword k call).Takes s (word.filter (· = k.toList))) ∧
      (setting.Refuses s.depth → name s = .error (.error (setting.refusal rule s)) s) ∧
      (¬ setting.Refuses s.depth →
        name.Takes s (word.filter (String.ofList · ∉ keywords)) ∨
          (∃ log, s.scanner.log = some log ∧ ¬ log.Unlimited) ∧
            ∃ t, name s = .error (.error .log) t) ∧
      ∀ m t, name s = .ok m t → (m ≠ .miss ↔ word ≠ none ∧
        ∀ k ∈ keywords, ∀ call, ∃ u, keyword k call s = .ok .miss u) := by
  intro setting keyword name
  have hspaced : Spaced setting := spaced_settingFor hg text options
  obtain ⟨rule, hrule, hname, hinherited⟩ := rule_identifier config
  have hkeyword (k : String) (hk : k ∈ keywords) (call : RuleId → Step Value Unit Match) :
      (keyword k call).Takes s ((wordAhead (s.rest text)).filter (· = k.toList)) :=
    takes_keyword setting hs hk call
  have hnames (hadmitted : ¬ setting.Refuses s.depth) :
      name.Takes s ((wordAhead (s.rest text)).filter (String.ofList · ∉ keywords)) ∨
        (∃ log, s.scanner.log = some log ∧ ¬ log.Unlimited) ∧
          ∃ t, name s = .error (.error .log) t := by
    obtain ⟨t, ht, hoffset⟩ :=
      hspaced.takes_identifier fuel hrule hinherited (s := s.withLog none) hs rfl hadmitted
    obtain ⟨u, hu, rfl⟩ | hcut := evalRule_of_untraced ht
    · exact .inl ⟨u, hu, hoffset⟩
    · exact .inr hcut
  refine ⟨rule, wordAhead (s.rest text), hrule, hname, longestWord_wordAhead _, hkeyword,
    evalRule_refused fuel hrule, hnames, fun m t hrun => ?_⟩
  have hadmitted : ¬ setting.Refuses s.depth := by
    intro hrefused
    cases hrun.symm.trans (evalRule_refused fuel hrule hrefused)
  obtain htakes | ⟨-, u, hu⟩ := hnames hadmitted
  · rw [Ne, htakes.eq_miss_iff hrun, ← Ne, filter_names_iff]
    refine and_congr_right fun _ => forall₂_congr fun k hk => ?_
    exact ⟨fun h call => (hkeyword k hk call).misses_iff.2 h,
      fun h => (hkeyword k hk (evalRule setting fuel)).misses_iff.1 (h _)⟩
  · cases hrun.symm.trans hu

/-- The letters of a keyword with an accented letter behind them are a name. -/
theorem keywords_and_names_accent :
    let text := Buffer.ofString "ifé("
    let s : State Value Unit := .start none ()
    ∃ g, g ∈ (domain {}).grammars ∧ s.scanner.offset ≤ text.size ∧
      (∃ t, evalRule (settingFor (domain {}) g text {}) 1 identifier s = .ok (.hit 3) t) ∧
      ∀ call, ∃ u, evalParser (settingFor (domain {}) g text {}) call (.keyword "if" none) s =
        .ok .miss u := by
  intro text s
  obtain ⟨g, hg⟩ := exists_grammar {}
  refine ⟨g, hg, Nat.zero_le _, ?_⟩
  obtain ⟨rule, word, -, -, hword, hkeywords, -, hname, -⟩ :=
    keywords_and_names hg text {} 0 s (Nat.zero_le _)
  obtain rfl : word = some "ifé".toList := hword.eq_wordAhead.trans (by decide +kernel)
  constructor
  · obtain ⟨t, ht, -⟩ | ⟨⟨log, hlog, -⟩, -⟩ := hname fun hrefused =>
      absurd hrefused.1 (Nat.not_lt_of_le hrefused.2)
    · exact ⟨t, ht⟩
    · cases hlog
  · intro call
    obtain ⟨u, hu, -⟩ := hkeywords "if" (by decide) call
    exact ⟨u, hu⟩

end AttrGrammar.Cpp

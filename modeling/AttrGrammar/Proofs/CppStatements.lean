import AttrGrammar.Proofs.CppStatementText

/-! Statements are read back as they were written. The first lexeme of a statement says of what kind
it is, so all kinds that are tried before it miss; whether an if statement goes on behind its first
branch is decided by the lexeme that follows, which is an `else` only where it belongs there. -/

namespace AttrGrammar.Cpp
open Text Peg Parse
open Reader Context

/-! ### Reading conditions and values -/

section

variable {levels : Nat} {c : Char} {e : Expression} {w : List Char}

/-- An expression is read up to the mark behind it. -/
theorem expression_leads (he : e.Writable) (hlevels : 9 * e.text.length + 7 ≤ levels)
    (hc : c ∈ punctuation) (rest : List Char) :
    RuleLeads (reader levels true "Expression") (lexemes (e.text ++ ' ' :: c :: rest))
      (.exactly (lexemes (c :: rest)) (some (.expression e))) := by
  have hlength := Expression.length_text_pos he
  obtain ⟨levels, rfl⟩ := Nat.exists_eq_add_of_le' (Nat.le_of_add_left_le hlevels)
  have hsettled := settled_punctuation hc rest
  have hblank : skipLayout (' ' :: c :: rest) = c :: rest :=
    (skipLayout_some rfl).trans hsettled.skipLayout_eq
  have hoperand : ReadsTo levels "Unary" (e.text ++ ' ' :: c :: rest) (c :: rest) e :=
    ⟨_, hblank, reader_text he (by omega) (ends_blank _)⟩
  have hpasses : ∀ t ∈ tiers, t.Passes (c :: rest) := by
    intro t _ op _
    have hmarks : ∀ c ∈ punctuation, op.symbol.toList ≠ [c] :=
      forall_punctuation.2 (by cases op <;> decide)
    rw [firstLexeme_punctuation hc]
    exact hmarks c hc
  obtain ⟨mid, hmid, hread⟩ := hoperand.single (by omega) hsettled hpasses
  have hleads := RuleLeads.of_hit ((lexicalRules _).lexical "Expression")
    (Expression.settled_text he _) hread
  rwa [← lexemes_skipLayout mid, hmid] at hleads

theorem unary_miss (hlevels : 1 ≤ levels) (hw : Ends opens w) :
    reader (levels + 2) true "Unary" [] w () = .miss () () := by
  have hword {p : Char → Bool} (hp : ∀ c, p c → isIdCont c) : Ends p w :=
    ends_mono hw fun c hc => Bool.or_eq_true_iff.2 (.inl (hp c hc))
  have hmark {c : Char} (hc : c ∈ ['-', '!', '(']) : Ends (· == c) w :=
    ends_mono hw fun d hd => eq_of_beq hd ▸ opens_mark hc
  have hprimary : reader (levels + 1) true "Primary" [] w () = .miss () () := by
    rw [reader_succ]
    exact activation_miss (choice_right (number_miss hlevels (hword fun _ => isIdCont_of_isDigit) _)
      (choice_right (name_miss hlevels (hword fun _ => isIdCont_of_isIdStart) _)
        (action_miss (seq_miss (oneChar_miss (hmark (by decide)) _ _)))))
  rw [reader_succ]
  exact activation_miss (choice_right
    (action_miss (seq_miss (oneChar_miss (hmark (by decide)) _ _)))
    (choice_right (action_miss (seq_miss (oneChar_miss (hmark (by decide)) _ _)))
      (action_miss (nonterminal_miss rfl hprimary))))

/-- Where no operand begins, no tier reads anything. -/
theorem entry_miss (hlevels : 1 ≤ levels) (hw : Ends opens w) {back : List Tier}
    (hsuffix : back <:+ tiers) :
    reader (levels + 2 + back.length) true (entry back) [] w () = .miss () () := by
  induction back with
  | nil => exact unary_miss hlevels hw
  | cons t back ih =>
      have hoperand := ih ((List.suffix_cons t back).trans hsuffix)
      rw [List.length_cons, ← Nat.add_assoc, reader_succ, entry, readRule_tier _ _ hsuffix]
      exact activation_miss (seq_miss (action_miss (nonterminal_miss rfl hoperand)))

theorem expression_misses (hlevels : 10 ≤ levels) (hc : opens c = false) (ls : List (List Char)) :
    RuleMisses (reader levels true "Expression") ([c] :: ls) := by
  intro w u hw hls
  obtain ⟨levels, rfl⟩ := Nat.exists_eq_add_of_le' hlevels
  have hhead : w.head? = some c := by
    have hfirst : firstLexeme w = [c] :=
      (hw.first_eq_iff (by simp)).2 (by rw [hls, List.head?_cons])
    rw [← head?_firstLexeme, hfirst, List.head?_cons]
  have hopens : Ends opens w := by
    intro d hd
    rw [hhead] at hd
    cases hd
    exact hc
  have hentry := entry_miss (Nat.le_add_left 1 levels) hopens List.suffix_rfl
  have hmiss : reader (levels + 10) true "Expression" [] w () = .miss () () := by
    rw [reader_succ]
    exact activation_miss (action_miss (nonterminal_miss rfl hentry))
  rw [hmiss]
  trivial

end

/-! ### Kinds of statements -/

/-- The rules of all kinds of statements but expressions, each with the lexeme it begins with. -/
def leading : List (String × List Char) :=
  [("CompoundStatement", ['\x7b']), ("IfStatement", "if".toList),
   ("WhileStatement", "while".toList), ("ReturnStatement", "return".toList),
   ("EmptyStatement", [';'])]

/-- The rules of all kinds, in the order in which they are tried. -/
def kinds : List String := leading.map Prod.fst ++ ["ExpressionStatement"]

/-- The first of some rules that does not miss. -/
def anyKind (call : Rules) : List String → Reader Value Unit
  | [] => never
  | rule :: rules => (Reader.nonterminal (call rule) "statement" []).choice (anyKind call rules)

theorem readStatement_eq (call : Rules) :
    readStatement call = activation [] [] true (action passStatement (anyKind call kinds)) := by
  simp only [kinds, leading, List.map_cons, List.map_nil, List.cons_append, List.nil_append,
    anyKind, choice_never]
  rfl

section

variable {call : Rules} {ls : List (List Char)} {f : Frame Value} {front back : List String}
  {rule : String} {next : List (List Char)} {s : Statement}

/-- Rules that miss are passed over. -/
theorem anyKind_leads {E : Endings (Frame Value) (Frame Value)}
    (hfront : ∀ rule ∈ front, RuleMisses (call rule) ls) (h : Leads (anyKind call back) ls f E) :
    Leads (anyKind call (front ++ back)) ls f E := by
  induction front with
  | nil => exact h
  | cons rule front ih =>
      obtain ⟨hrule, hfront⟩ := List.forall_mem_cons.1 hfront
      exact .choice (.nonterminal_misses hrule (ih hfront))

theorem statement_leads (hkinds : kinds = front ++ rule :: back)
    (hfront : ∀ rule ∈ front, RuleMisses (call rule) ls)
    (h : RuleLeads (call rule) ls (.exactly next (some (.statement s)))) :
    RuleLeads (readStatement call) ls (.exactly next (some (.statement s))) := by
  rw [readStatement_eq, hkinds]
  refine .activation (.action (anyKind_leads hfront (.choice (.nonterminal_exactly h ?_))))
  exact ⟨_, fun text => passStatement_of text rfl s, _, rfl, rfl, rfl⟩

theorem statement_misses (h : ∀ rule ∈ kinds, RuleMisses (call rule) ls) :
    RuleMisses (readStatement call) ls := by
  rw [readStatement_eq, ← List.append_nil kinds]
  exact .activation (.action (anyKind_leads h fun _ _ _ _ => trivial))

end

section

variable {levels : Nat} {ls next : List (List Char)} {k : String × List Char} {s : Statement}

/-- In front of another lexeme the rule of a kind misses. -/
theorem leading_misses (hlevels : 1 ≤ levels) (hk : k ∈ leading) (hhead : ls.head? ≠ some k.2) :
    RuleMisses (reader levels true k.1) ls := by
  obtain ⟨levels, rfl⟩ := Nat.exists_eq_add_of_le' hlevels
  have hcrosses := (lexicalRules levels).crosses
  have hhit (ls' : List (List Char)) (hls : ls = k.2 :: ls') : False :=
    hhead (by rw [hls, List.head?_cons])
  simp only [leading, List.mem_cons, List.not_mem_nil, or_false] at hk
  rcases hk with rfl | rfl | rfl | rfl | rfl <;> rw [reader_succ]
  · exact .activation (.spaced hcrosses (.action (.mark (by decide)
      (fun ls' hls => (hhit ls' hls).elim) fun _ => trivial)))
  · exact .activation (.spaced hcrosses (.action (.spaced hcrosses (.keyword (by decide)
      (fun ls' hls => (hhit ls' hls).elim) fun _ => trivial))))
  · exact .activation (.action (.spaced hcrosses (.keyword (by decide)
      (fun ls' hls => (hhit ls' hls).elim) fun _ => trivial)))
  · exact .activation (.action (.spaced hcrosses (.keyword (by decide)
      (fun ls' hls => (hhit ls' hls).elim) fun _ => trivial)))
  · exact .activation (.action (.mark (by decide)
      (fun ls' hls => (hhit ls' hls).elim) fun _ => trivial))

/-- The first lexeme decides of what kind a statement is. -/
theorem statement_of_leading (hlevels : 1 ≤ levels) (hk : k ∈ leading) (hls : ls.head? = some k.2)
    (h : RuleLeads (reader levels true k.1) ls (.exactly next (some (.statement s)))) :
    RuleLeads (reader (levels + 1) true "Statement") ls (.exactly next (some (.statement s))) := by
  obtain ⟨front, back, hsplit⟩ := List.append_of_mem hk
  have hpairwise : leading.Pairwise fun k k' => k'.2 ≠ k.2 := by decide
  rw [hsplit] at hpairwise
  have hkinds : kinds =
      front.map Prod.fst ++ k.1 :: (back.map Prod.fst ++ ["ExpressionStatement"]) := by
    simp [kinds, hsplit]
  rw [reader_succ]
  refine statement_leads hkinds (fun rule hrule => ?_) h
  obtain ⟨k', hk', rfl⟩ := List.mem_map.1 hrule
  have hne : k.2 ≠ k'.2 := (List.pairwise_append.1 hpairwise).2.2 k' hk' k List.mem_cons_self
  refine leading_misses hlevels (by simp [hsplit, hk']) ?_
  rw [hls]
  exact fun h => hne (Option.some.inj h)

/-- Where none of these lexemes stands, the statement is an expression. -/
theorem statement_of_expression (hlevels : 1 ≤ levels) (hls : ∀ k ∈ leading, ls.head? ≠ some k.2)
    (h : RuleLeads (reader levels true "ExpressionStatement") ls
      (.exactly next (some (.statement s)))) :
    RuleLeads (reader (levels + 1) true "Statement") ls (.exactly next (some (.statement s))) := by
  have hkinds : kinds = leading.map Prod.fst ++ "ExpressionStatement" :: [] := rfl
  rw [reader_succ]
  refine statement_leads hkinds (fun rule hrule => ?_) h
  obtain ⟨k, hk, rfl⟩ := List.mem_map.1 hrule
  exact leading_misses hlevels hk (hls k hk)

/-- Behind the last statement of a compound statement there is no other one. -/
theorem statement_misses_close (hlevels : 12 ≤ levels) :
    RuleMisses (reader levels true "Statement") (['\x7d'] :: ls) := by
  obtain ⟨levels, rfl⟩ := Nat.exists_eq_add_of_le' hlevels
  rw [reader_succ]
  refine statement_misses fun rule hrule => ?_
  rcases List.mem_append.1 hrule with hrule | hrule
  · obtain ⟨k, hk, rfl⟩ := List.mem_map.1 hrule
    have hother : ∀ k ∈ leading, some ['\x7d'] ≠ some k.2 := by decide
    exact leading_misses (Nat.le_add_left_of_le (by decide)) hk (hother k hk)
  · obtain rfl := List.mem_singleton.1 hrule
    have hexpression : RuleMisses (reader (levels + 10) true "Expression") (['\x7d'] :: ls) :=
      expression_misses (Nat.le_add_left 10 levels) (not_opens (by decide)) ls
    rw [reader_succ]
    exact .activation (.action (.spaced (lexicalRules _).crosses
      (.nonterminal_misses hexpression trivial)))

end

/-! ### What may follow a statement -/

/-- No comment that is left open follows the statement, and no `else` that would belong to it. -/
structure Statement.Precedes (s : Statement) (ls : List (List Char)) : Prop where
  comment : ls.head? ≠ some "/*".toList
  noElse : s.isOpen → ls.head? ≠ some "else".toList

section

variable {ls : List (List Char)}

theorem precedes_cons (s : Statement) {l : List Char} (hcomment : l ≠ "/*".toList)
    (helse : l ≠ "else".toList) : s.Precedes (l :: ls) where
  comment h := hcomment (Option.some.inj h)
  noElse _ h := helse (Option.some.inj h)

/-- A statement may follow every statement. -/
theorem precedes_text (s : Statement) {t : Statement} (ht : t.Writable) (rest : List Char) :
    s.Precedes (lexemes (t.text ++ rest)) := by
  cases ht with
  | compound _ =>
      rw [Statement.text_compound, lexemes_punctuation (by decide)]
      exact precedes_cons s (by decide) (by decide)
  | ifThen _ _ =>
      rw [Statement.text_ifThen, lexemes_headed (by decide)]
      exact precedes_cons s (by decide) (by decide)
  | ifElse _ _ _ _ =>
      rw [Statement.text_ifElse, lexemes_headed (by decide)]
      exact precedes_cons s (by decide) (by decide)
  | loop _ _ =>
      rw [Statement.text_loop, lexemes_headed (by decide)]
      exact precedes_cons s (by decide) (by decide)
  | @ret value _ =>
      cases value with
      | none =>
          rw [Statement.text_ret_none, lexemes_keyword (by decide)]
          exact precedes_cons s (by decide) (by decide)
      | some e =>
          rw [Statement.text_ret_some, lexemes_keyword (by decide)]
          exact precedes_cons s (by decide) (by decide)
  | @expression e he =>
      have hsettled := Expression.settled_text he (' ' :: ';' :: rest)
      rw [Statement.text_expression]
      refine ⟨hsettled.head?_ne_comment, fun _ => ?_⟩
      exact mt (hsettled.first_eq_iff (by decide)).2
        (firstLexeme_ne_keyword he (ends_blank _) (by decide))
  | empty =>
      rw [Statement.text_empty, lexemes_punctuation (by decide)]
      exact precedes_cons s (by decide) (by decide)

/-- Statements and a closing brace may follow every statement. -/
theorem precedes_textAll (s : Statement) {body : List Statement} (hbody : ∀ t ∈ body, t.Writable)
    (rest : List Char) : s.Precedes (lexemes (Statement.textAll body ++ '\x7d' :: rest)) := by
  cases body with
  | nil =>
      show s.Precedes (lexemes ('\x7d' :: rest))
      rw [lexemes_punctuation (by decide)]
      exact precedes_cons s (by decide) (by decide)
  | cons t body =>
      rw [Statement.textAll_cons]
      exact precedes_text s (hbody t List.mem_cons_self) _

end

/-! ### Reading statements -/

/-- Whatever may follow the statement, it is read to its end. Nine activations are enough for each
character. -/
def Statement.IsRead (s : Statement) : Prop :=
  ∀ levels rest, 9 * s.text.length ≤ levels → s.Precedes (lexemes rest) →
    RuleLeads (reader levels true "Statement") (lexemes (s.text ++ rest))
      (.exactly (lexemes rest) (some (.statement s)))

section

variable {levels : Nat} {e : Expression} {s t : Statement} {f : Frame Value}
  {P : List (List Char) → Frame Value → Prop} {R : Frame Value → Prop} {S : Stop → Prop}
  (rest : List Char)

theorem mark_leads {c : Char} (hc : c ∈ punctuation) (hhit : P (lexemes rest) f) :
    Leads (oneChar (· == c)) (lexemes (c :: rest)) f ⟨P, R, S⟩ := by
  rw [lexemes_punctuation hc]
  refine .mark hc (fun ls hls => ?_) fun hmiss => absurd rfl hmiss
  obtain rfl := (List.cons.inj hls).2
  exact hhit

theorem keyword_leads {word : String} (hword : word ∈ keywords) (hhit : P (lexemes rest) f) :
    Leads (readKeyword word) (lexemes (word.toList ++ ' ' :: rest)) f ⟨P, R, S⟩ := by
  rw [lexemes_keyword hword]
  refine .keyword hword (fun ls hls => ?_) fun hmiss => absurd rfl hmiss
  obtain rfl := (List.cons.inj hls).2
  exact hhit

/-- The condition is put aside. -/
theorem condition_leads (he : e.Writable) (hlevels : 9 * e.text.length + 7 ≤ levels)
    (hhit : P (lexemes rest) (f.setInstance "Expression" (.expression e))) :
    Leads (readCondition (gap levels true) (reader levels true))
      (lexemes ('(' :: ' ' :: (e.text ++ ' ' :: ')' :: ' ' :: rest))) f ⟨P, R, S⟩ := by
  have hcrosses := (lexicalRules levels).crosses
  have hpos : 1 ≤ levels := by omega
  refine .spaced hcrosses (.spaced hcrosses (.expect (mark_leads _ (by decide) ?_)))
  rw [lexemes_blank]
  refine ⟨passes_settled hpos (Expression.settled_text he _), .expect (.nonterminal_exactly
    (expression_leads he hlevels (by decide) _) ?_)⟩
  refine ⟨passes_settled hpos (settled_punctuation (by decide) _),
    .expect (mark_leads _ (by decide) ?_)⟩
  rw [lexemes_blank]
  exact hhit

/-- A word, a condition and the statement that depends on it. -/
theorem conditional_leads {word : String} (hword : word ∈ keywords)
    (make : Expression → Statement → Statement) (he : e.Writable) (hs : s.Writable)
    (hread : s.IsRead) (hlevels : 9 * e.text.length + 7 ≤ levels)
    (hlevels' : 9 * s.text.length ≤ levels) (hnext : s.Precedes (lexemes rest))
    (hf : f.instances = []) (hhit : P (lexemes rest) (f.setValue (.statement (make e s)))) :
    Leads (action (setConditional make) <| spaced (gap levels true) (readKeyword word) <|
        spaced (gap levels true) (readCondition (gap levels true) (reader levels true))
          (demanding (reader levels true) "Statement"))
      (lexemes (headed word e (s.text ++ rest))) f ⟨P, R, S⟩ := by
  have hcrosses := (lexicalRules levels).crosses
  have hpos : 1 ≤ levels := by omega
  refine .action (.spaced hcrosses (keyword_leads _ hword ?_))
  refine ⟨passes_settled hpos (settled_punctuation (by decide) _),
    .spaced hcrosses (condition_leads _ he hlevels ?_)⟩
  refine ⟨passes_gap hpos (precedes_text s hs rest).comment S, .expect (.nonterminal_exactly
    (hread levels rest hlevels' hnext) ?_)⟩
  exact ⟨_, fun text => setConditional_of text hf make e s, hhit⟩

/-- It is enough that the rule of its kind reads the statement. -/
theorem isRead_of_leading {k : String × List Char} (hk : k ∈ leading)
    (hhead : ∀ rest, (lexemes (s.text ++ rest)).head? = some k.2)
    (h : ∀ levels rest, 9 * s.text.length ≤ levels + 2 → s.Precedes (lexemes rest) →
      RuleLeads (readRule (gap levels true) (reader levels true) k.1) (lexemes (s.text ++ rest))
        (.exactly (lexemes rest) (some (.statement s)))) : s.IsRead := by
  intro levels rest hlevels hnext
  have hne : s.text ≠ [] := by
    intro hnil
    have hnone := hhead []
    rw [hnil, List.append_nil, lexemes_nil] at hnone
    cases hnone
  have hlength := List.length_pos_iff.2 hne
  obtain ⟨levels, rfl⟩ := Nat.exists_eq_add_of_le' (show 2 ≤ levels by omega)
  refine statement_of_leading (Nat.le_add_left 1 levels) hk (hhead rest) ?_
  rw [reader_succ]
  exact h levels rest hlevels hnext

theorem ifThen_isRead (he : e.Writable) (ht : t.Writable) (hread : t.IsRead) :
    (Statement.ifThen e t).IsRead := by
  refine isRead_of_leading (k := ("IfStatement", "if".toList)) (by decide) (fun rest => ?_)
    fun levels rest hlevels hnext => ?_
  · rw [Statement.text_ifThen, lexemes_headed (by decide), List.head?_cons]
  have hlength := congrArg List.length (Statement.text_ifThen [] e t)
  simp only [headed, List.append_nil, List.length_append, List.length_cons] at hlength
  have hcrosses := (lexicalRules levels).crosses
  rw [Statement.text_ifThen]
  refine .activation (.spaced hcrosses (conditional_leads rest (by decide) .ifThen he ht hread
    (by omega) (by omega) ⟨hnext.comment, fun _ => hnext.noElse rfl⟩ rfl ?_))
  refine ⟨passes_gap (by omega) hnext.comment _, .optional (.action (.spaced hcrosses
    (.keyword (by decide) (fun ls hls => ?_) fun _ => ?_)))⟩
  · exact absurd (congrArg List.head? hls) (hnext.noElse rfl)
  · exact ⟨_, rfl, rfl, rfl⟩

theorem ifElse_isRead (he : e.Writable) (hclosed : s.isOpen = false) (hs : s.Writable)
    (ht : t.Writable) (hreads : s.IsRead) (hreadt : t.IsRead) :
    (Statement.ifElse e s t).IsRead := by
  refine isRead_of_leading (k := ("IfStatement", "if".toList)) (by decide) (fun rest => ?_)
    fun levels rest hlevels hnext => ?_
  · rw [Statement.text_ifElse, lexemes_headed (by decide), List.head?_cons]
  have hlength := congrArg List.length (Statement.text_ifElse [] e s t)
  simp only [headed, List.append_nil, List.length_append, List.length_cons] at hlength
  have hcrosses := (lexicalRules levels).crosses
  have hbehind : s.Precedes (lexemes (' ' :: ("else".toList ++ ' ' :: (t.text ++ rest)))) := by
    rw [lexemes_blank, lexemes_keyword (by decide)]
    refine ⟨fun h => absurd (Option.some.inj h) (by decide), fun hopen => ?_⟩
    rw [hclosed] at hopen
    cases hopen
  rw [Statement.text_ifElse]
  refine .activation (.spaced hcrosses (conditional_leads _ (by decide) .ifThen he hs hreads
    (by omega) (by omega) hbehind rfl ?_))
  refine ⟨passes_gap (by omega) hbehind.comment _, .optional (.action (.spaced hcrosses ?_))⟩
  rw [lexemes_blank]
  refine keyword_leads _ (by decide) ⟨passes_gap (by omega) (precedes_text s ht rest).comment _,
    .expect (.nonterminal_exactly (hreadt levels rest (by omega) ⟨hnext.comment, hnext.noElse⟩) ?_)⟩
  exact ⟨_, fun text => addElse_of text rfl e s t, _, rfl, rfl, rfl⟩

theorem loop_isRead (he : e.Writable) (hs : s.Writable) (hread : s.IsRead) :
    (Statement.loop e s).IsRead := by
  refine isRead_of_leading (k := ("WhileStatement", "while".toList)) (by decide) (fun rest => ?_)
    fun levels rest hlevels hnext => ?_
  · rw [Statement.text_loop, lexemes_headed (by decide), List.head?_cons]
  have hlength := congrArg List.length (Statement.text_loop [] e s)
  simp only [headed, List.append_nil, List.length_append, List.length_cons] at hlength
  rw [Statement.text_loop]
  exact .activation (conditional_leads rest (by decide) .loop he hs hread (by omega) (by omega)
    ⟨hnext.comment, hnext.noElse⟩ rfl ⟨_, rfl, rfl, rfl⟩)

theorem ret_some_isRead (he : e.Writable) : (Statement.ret (some e)).IsRead := by
  refine isRead_of_leading (k := ("ReturnStatement", "return".toList)) (by decide) (fun rest => ?_)
    fun levels rest hlevels _ => ?_
  · rw [Statement.text_ret_some, lexemes_keyword (by decide), List.head?_cons]
  have hlength := congrArg List.length (Statement.text_ret_some [] e)
  simp only [List.append_nil, List.length_append, List.length_cons] at hlength
  have hcrosses := (lexicalRules levels).crosses
  rw [Statement.text_ret_some]
  refine .activation (.action (.spaced hcrosses (keyword_leads _ (by decide) ?_)))
  refine ⟨passes_settled (by omega) (Expression.settled_text he _), .spaced hcrosses
    (.optional (.nonterminal_exactly (expression_leads he (by omega) (by decide) _) ?_))⟩
  refine ⟨passes_settled (by omega) (settled_punctuation (by decide) _),
    .expect (mark_leads _ (by decide) ?_)⟩
  exact ⟨_, fun text => setReturn_of text rfl (some e), _, rfl, rfl, rfl⟩

/-- Where the semicolon stands there is no value. -/
theorem ret_none_isRead : (Statement.ret none).IsRead := by
  refine isRead_of_leading (k := ("ReturnStatement", "return".toList)) (by decide) (fun rest => ?_)
    fun levels rest hlevels _ => ?_
  · rw [Statement.text_ret_none, lexemes_keyword (by decide), List.head?_cons]
  have hlength := congrArg List.length (Statement.text_ret_none [])
  simp only [List.append_nil, List.length_append, List.length_cons] at hlength
  have hcrosses := (lexicalRules levels).crosses
  have hpasses : Passes (gap levels true) (fun _ => False) (lexemes (';' :: rest)) :=
    passes_settled (by omega) (settled_punctuation (by decide) rest)
  have hmisses : RuleMisses (reader levels true "Expression") (lexemes (';' :: rest)) := by
    rw [lexemes_punctuation (by decide)]
    exact expression_misses (by omega) (not_opens (by decide)) _
  rw [Statement.text_ret_none]
  refine .activation (.action (.spaced hcrosses (keyword_leads _ (by decide) ⟨hpasses,
    .spaced hcrosses (.optional (.nonterminal_misses hmisses ?_))⟩)))
  refine ⟨hpasses, .expect (mark_leads _ (by decide) ?_)⟩
  exact ⟨_, fun text => setReturn_of text rfl none, _, rfl, rfl, rfl⟩

theorem empty_isRead : Statement.empty.IsRead := by
  let start : Frame Value := (Frame.ofLocals []).bindInherited [] []
  refine isRead_of_leading (k := ("EmptyStatement", [';'])) (by decide) (fun rest => ?_)
    fun levels rest _ _ => ?_
  · rw [Statement.text_empty, lexemes_punctuation (by decide), List.head?_cons]
  · rw [Statement.text_empty]
    exact .activation (.action (mark_leads rest (by decide)
      ⟨start.setValue (.statement .empty), fun _ => rfl, _, rfl, rfl, rfl⟩))

/-- No expression begins like a statement of another kind. -/
theorem head?_expression (he : e.Writable) {k : String × List Char} (hk : k ∈ leading) :
    (lexemes (e.text ++ ' ' :: rest)).head? ≠ some k.2 := by
  have hkinds : ∀ k ∈ leading, k.2 ≠ [] ∧
      ((∃ word ∈ keywords, word.toList = k.2) ∨ k.2.head?.any opens = false) := by decide
  obtain ⟨hne, hkind⟩ := hkinds k hk
  refine mt ((Expression.settled_text he _).first_eq_iff hne).2 ?_
  rcases hkind with ⟨word, hword, hk⟩ | hmark
  · rw [← hk]
    exact firstLexeme_ne_keyword he (ends_blank rest) hword
  · intro hfirst
    have hopens : (e.text ++ ' ' :: rest).head?.any opens :=
      any_head?_append (Expression.opens_text he)
    rw [← head?_firstLexeme, hfirst, hmark] at hopens
    cases hopens

theorem expression_isRead (he : e.Writable) : (Statement.expression e).IsRead := by
  intro levels rest hlevels _
  have hlength := congrArg List.length (Statement.text_expression [] e)
  simp only [List.append_nil, List.length_append, List.length_cons] at hlength
  obtain ⟨levels, rfl⟩ := Nat.exists_eq_add_of_le' (show 2 ≤ levels by omega)
  have hcrosses := (lexicalRules levels).crosses
  rw [Statement.text_expression]
  refine statement_of_expression (Nat.le_add_left 1 levels)
    (fun k hk => head?_expression (';' :: rest) he hk) ?_
  rw [reader_succ]
  refine .activation (.action (.spaced hcrosses (.nonterminal_exactly
    (expression_leads he (by omega) (by decide) _) ?_)))
  refine ⟨passes_settled (by omega) (settled_punctuation (by decide) _),
    .expect (mark_leads _ (by decide) ?_)⟩
  exact ⟨_, fun text => setExpressionStatement_of text rfl e, _, rfl, rfl, rfl⟩

/-- Statements in braces are read one after the other, and behind the last one there is no other. -/
theorem compound_leads {body : List Statement} (hbody : ∀ s ∈ body, s.Writable ∧ s.IsRead)
    (hlevels : 9 * (Statement.textAll body).length + 12 ≤ levels) :
    RuleLeads (readCompound (gap levels true) (reader levels true))
      (lexemes ((Statement.compound body).text ++ rest))
      (.exactly (lexemes rest) (some (.statement (.compound body)))) := by
  have hrules := lexicalRules levels
  have hpos : 1 ≤ levels := by omega
  have hreads : (action addStatement (calling (reader levels true) "Statement")).Reads 1 :=
    (Reads.nonterminal (hrules.reads _) _ _).action _
  have hprecedes (s : Statement) {done todo : List Statement} (hsplit : body = done ++ todo) :
      s.Precedes (lexemes (Statement.textAll todo ++ '\x7d' :: rest)) :=
    precedes_textAll s (fun t ht => (hbody t (by simp [hsplit, ht])).1) rest
  let start : Frame Value := (Frame.ofLocals []).bindInherited [] []
  rw [Statement.text_compound]
  refine .activation (.spaced hrules.crosses (.action (mark_leads _ (by decide) ?_)))
  rw [lexemes_blank]
  refine ⟨start.setValue (.statement (.compound [])), fun _ => rfl,
    passes_gap hpos (hprecedes .empty (List.nil_append body).symm).comment _, ?_⟩
  -- Before each round the statements read so far are in the frame, and the others are left.
  refine .spaced hrules.crosses (.star (I := fun ls f => ∃ done todo, body = done ++ todo ∧
      f = start.setValue (.statement (.compound done)) ∧
      ls = lexemes (Statement.textAll todo ++ '\x7d' :: rest))
    hrules.crosses hrules.gapReads hreads ?_ ?_ ⟨[], body, rfl, rfl, rfl⟩)
  · rintro _ _ ⟨done, todo, hsplit, -, rfl⟩
    exact passes_gap hpos (hprecedes .empty hsplit).comment _
  rintro _ _ ⟨done, todo, hsplit, rfl, rfl⟩
  cases todo with
  | nil =>
      have hmisses : RuleMisses (reader levels true "Statement") (lexemes ('\x7d' :: rest)) := by
        rw [lexemes_punctuation (by decide)]
        exact statement_misses_close (by omega)
      refine .action (.nonterminal_misses hmisses ⟨passes_settled hpos
        (settled_punctuation (by decide) _), .expect (mark_leads _ (by decide) ⟨_, rfl, rfl, ?_⟩)⟩)
      rw [hsplit, List.append_nil]
  | cons s todo =>
      have hmem : s ∈ body := by simp [hsplit]
      have hlength := Statement.length_text_le hmem
      have hnext := hprecedes s (hsplit.trans (List.append_cons done s todo))
      rw [Statement.textAll_cons]
      refine .action (.nonterminal_exactly ((hbody s hmem).2 levels _ (by omega) ?_) ?_)
      · rw [lexemes_blank]
        exact hnext
      · rw [lexemes_blank]
        exact ⟨_, fun text => addStatement_of text rfl done s, done ++ [s], todo,
          hsplit.trans (List.append_cons done s todo), rfl, rfl⟩

theorem compound_isRead {body : List Statement} (hbody : ∀ s ∈ body, s.Writable ∧ s.IsRead) :
    (Statement.compound body).IsRead := by
  refine isRead_of_leading (k := ("CompoundStatement", ['\x7b'])) (by decide) (fun rest => ?_)
    fun levels rest hlevels _ => compound_leads rest hbody ?_
  · rw [Statement.text_compound, lexemes_punctuation (by decide), List.head?_cons]
  · have hlength := congrArg List.length (Statement.text_compound [] body)
    simp only [List.append_nil, List.length_append, List.length_cons] at hlength
    omega

/-- What can be written is read. -/
theorem isRead_of_writable (hs : s.Writable) : s.IsRead := by
  induction hs with
  | compound hbody ih => exact compound_isRead fun s hs => ⟨hbody s hs, ih s hs⟩
  | ifThen he ht ih => exact ifThen_isRead he ht ih
  | ifElse he hclosed hs ht ihs iht => exact ifElse_isRead he hclosed hs ht ihs iht
  | loop he hs ih => exact loop_isRead he hs ih
  | @ret value he =>
      cases value with
      | none => exact ret_none_isRead
      | some e => exact ret_some_isRead (he e rfl)
  | expression he => exact expression_isRead he
  | empty => exact empty_isRead

end

/-! ### Whole statements -/

/-- What a compound statement is written as is parsed as the statement again, however blanks and
comments stand between its tokens. -/
theorem parseStatement_render {config : Config} (hdepth : config.maxDepth = 0)
    {body : List Statement} (hbody : (Statement.compound body).Writable) {input : String}
    (hinput : lexemes input.toList = lexemes (Statement.compound body).render.toList)
    (hshort : config.maxInputLength = 0 ∨ input.toList.length ≤ config.maxInputLength)
    (fileName : String) :
    (parseStatement config input { fileName }).outcome = .ok (.compound body) := by
  let text := (Statement.compound body).text
  obtain ⟨depth, hlevels, hdepth⟩ : ∃ depth, levels config text.length = depth + 1 ∧
      9 * text.length + 12 ≤ depth := by
    rw [levels, if_pos hdepth]
    exact ⟨20 * (text.length + 2) + UInt32.size - 1, by omega, by omega⟩
  have htext : text = '\x7b' :: ' ' :: (Statement.textAll body ++ ['\x7d']) := by
    rw [← Statement.text_compound, List.append_nil]
  have hlength := congrArg List.length htext
  simp only [List.length_append, List.length_cons] at hlength
  have hread : RuleLeads (reader (depth + 1) true "CompoundStatement") (lexemes text)
      (.exactly [] (some (.statement (.compound body)))) := by
    cases hbody with
    | compound hbody =>
        have henough : 9 * (Statement.textAll body).length + 12 ≤ depth := by omega
        have hleads := compound_leads []
          (fun s hs => ⟨hbody s hs, isRead_of_writable (hbody s hs)⟩) henough
        rw [reader_succ]
        rwa [List.append_nil, lexemes_nil] at hleads
  refine ok_of_toOption ?_
  calc (parseStatement config input { fileName }).outcome.toOption
      = picked Value.statement? (readWhole (levels config input.toList.length) "CompoundStatement"
          input.toList) := parseStatement_denotes config input fileName hshort
    _ = picked Value.statement? (readWhole (levels config text.length) "CompoundStatement" text) :=
        picked_levels config _ _ hinput
    _ = some (.compound body) := by
        rw [hlevels]
        refine picked_of_exactly (by omega) ?_ hread
        rw [htext]
        exact (settled_punctuation (by decide) _).head?_ne_comment

/-- An `else` behind an if statement in braces, and one more if statement behind it. -/
theorem parseStatement_render_nested :
    let config : Config := { maxDepth := 0 }
    let x : Expression := .identifier "x"
    let body : List Statement := [.ifElse x (.loop x (.compound [.ifThen x .empty]))
      (.ifThen x (.ret (some (.unary .negate (.integer 7))))), .expression x, .ret none]
    let input := "\x7b if ( x ) while ( x ) \x7b if ( x ) ; \x7d else if ( x ) return -7 ; x ; " ++
      "return ; \x7d"
    config.maxDepth = 0 ∧ (Statement.compound body).Writable ∧
      input = (Statement.compound body).render ∧
      lexemes input.toList = lexemes (Statement.compound body).render.toList ∧
      config.maxInputLength = 0 ∧
      (parseStatement config input {}).outcome = .ok (.compound body) := by
  intro config x body input
  have hx : x.Writable := show IsName "x" by decide +kernel
  have hvalue : (Expression.unary .negate (.integer 7)).Writable :=
    ⟨show (0 : Int) ≤ 7 by decide, by decide⟩
  have hloop : (Statement.loop x (.compound [.ifThen x .empty])).Writable :=
    .loop hx (.compound (by simpa using .ifThen hx .empty))
  have hlast : (Statement.ifThen x (.ret (some (.unary .negate (.integer 7))))).Writable :=
    .ifThen hx (.ret (by simpa using hvalue))
  have hbody : (Statement.compound body).Writable := by
    refine .compound fun s hs => ?_
    simp only [body, List.mem_cons, List.not_mem_nil, or_false] at hs
    rcases hs with rfl | rfl | rfl
    · exact .ifElse hx rfl hloop hlast
    · exact .expression hx
    · exact .ret nofun
  have hinput : input = (Statement.compound body).render := by decide +kernel
  have hlexemes := congrArg (fun input : String => lexemes input.toList) hinput
  exact ⟨rfl, hbody, hinput, hlexemes, rfl,
    parseStatement_render rfl hbody hlexemes (.inl rfl) ""⟩

end AttrGrammar.Cpp

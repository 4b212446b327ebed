import AttrGrammar.Proofs.CppActions
import AttrGrammar.Proofs.CppLexemeLogic
import AttrGrammar.Proofs.CppTrees

/-! What an accepted text says about the tree. Whatever a rule returns covers the lexemes that the
rule has read: it has their tokens in their order, it can be written down, and no `else` follows
that would belong to it. This is so for every rule because it is so for the rules it calls, whatever
branches were tried and dropped before. -/

namespace AttrGrammar.Cpp
open Text Peg Parse
open Reader Context

/-! ### Covered lexemes -/

/-- The lexemes `ls` begin with those of the expression, apart from parentheses; `ls'` are left. -/
structure Expression.Covers (e : Expression) (ls ls' : List (List Char)) : Prop where
  writable : e.Writable
  tokens : significant ls = e.tokens ++ significant ls'

/-- The same for a statement, behind which no `else` follows that would belong to it. -/
structure Statement.Covers (s : Statement) (ls ls' : List (List Char)) : Prop where
  writable : s.Writable
  tokens : significant ls = s.tokens ++ significant ls'
  noElse : s.isOpen → ls'.head? ≠ some "else".toList

section

variable {ls ls₁ ls₂ ls₃ ls₄ ls₅ : List (List Char)} {e l r : Expression} {s t : Statement}

namespace Expression.Covers

theorem unary {op : UnaryOp} (hop : ls = op.symbol.toList :: ls₁) (h : e.Covers ls₁ ls₂) :
    (unary op e).Covers ls ls₂ where
  writable := h.writable
  tokens := by
    rw [hop, significant_sign, h.tokens]
    rfl

theorem binary {op : BinaryOp} (hl : l.Covers ls ls₁) (hop : ls₁ = op.symbol.toList :: ls₂)
    (hr : r.Covers ls₂ ls₃) : (binary op l r).Covers ls ls₃ where
  writable := ⟨hl.writable, hr.writable⟩
  tokens := by
    rw [hl.tokens, hop, significant_symbol, hr.tokens, Expression.tokens, List.append_assoc,
      List.cons_append]

/-- Parentheses do not count. -/
theorem parenthesized (hopen : ls = ['('] :: ls₁) (h : e.Covers ls₁ ls₂)
    (hclose : ls₂ = [')'] :: ls₃) : e.Covers ls ls₃ where
  writable := h.writable
  tokens := by
    rw [hopen, significant_parenthesis (by decide), h.tokens, hclose,
      significant_parenthesis (by decide)]

end Expression.Covers

theorem significant_keyword {word : String} (hword : word ∈ keywords) (ls : List (List Char)) :
    significant (word.toList :: ls) = .plain word.toList :: significant ls := by
  have hplain : ∀ word ∈ keywords, word.toList ∉ parentheses ∧
      word.toList.head?.any Char.isDigit = false := by decide
  exact significant_plain (hplain word hword).1 (hplain word hword).2 ls

theorem significant_semicolon (ls : List (List Char)) :
    significant ([';'] :: ls) = .plain [';'] :: significant ls :=
  significant_plain (by decide) rfl ls

namespace Statement.Covers

/-- Statements in braces; so many have been read before the closing one. -/
theorem compound {body : List Statement} (hopen : ls = ['\x7b'] :: ls₁)
    (hbody : ∀ s ∈ body, s.Writable)
    (htokens : significant ls₁ = tokensAll body ++ significant ls₂)
    (hclose : ls₂ = ['\x7d'] :: ls₃) : (Statement.compound body).Covers ls ls₃ where
  writable := .compound hbody
  tokens := by
    rw [hopen, significant_plain (by decide) rfl, htokens, hclose,
      significant_plain (by decide) rfl, Statement.tokens]
    simp
  noElse := nofun

theorem ifThen (hif : ls = "if".toList :: ls₁) (hcondition : e.Covers ls₁ ls₂)
    (hthen : s.Covers ls₂ ls₃) (hend : ls₃.head? ≠ some "else".toList) :
    (Statement.ifThen e s).Covers ls ls₃ where
  writable := .ifThen hcondition.writable hthen.writable
  tokens := by
    rw [hif, significant_keyword (by decide), hcondition.tokens, hthen.tokens, Statement.tokens]
    simp
  noElse _ := hend

/-- The branch before an `else` is closed, for the `else` does not belong to it. -/
theorem ifElse (hif : ls = "if".toList :: ls₁) (hcondition : e.Covers ls₁ ls₂)
    (hthen : s.Covers ls₂ ls₃) (hbetween : ls₃ = "else".toList :: ls₄) (helse : t.Covers ls₄ ls₅) :
    (Statement.ifElse e s t).Covers ls ls₅ where
  writable := by
    have hclosed : s.isOpen = false := Bool.eq_false_iff.2 fun hopen =>
      hthen.noElse hopen (by rw [hbetween, List.head?_cons])
    exact .ifElse hcondition.writable hclosed hthen.writable helse.writable
  tokens := by
    rw [hif, significant_keyword (by decide), hcondition.tokens, hthen.tokens, hbetween,
      significant_keyword (by decide), helse.tokens, Statement.tokens]
    simp
  noElse := helse.noElse

theorem loop (hwhile : ls = "while".toList :: ls₁) (hcondition : e.Covers ls₁ ls₂)
    (hbody : s.Covers ls₂ ls₃) : (Statement.loop e s).Covers ls ls₃ where
  writable := .loop hcondition.writable hbody.writable
  tokens := by
    rw [hwhile, significant_keyword (by decide), hcondition.tokens, hbody.tokens, Statement.tokens]
    simp
  noElse := hbody.noElse

theorem ret_none (hreturn : ls = "return".toList :: ls₁) (hend : ls₁ = [';'] :: ls₂) :
    (Statement.ret none).Covers ls ls₂ where
  writable := .ret nofun
  tokens := by
    rw [hreturn, significant_keyword (by decide), hend, significant_semicolon]
    rfl
  noElse := nofun

theorem ret_some (hreturn : ls = "return".toList :: ls₁) (h : e.Covers ls₁ ls₂)
    (hend : ls₂ = [';'] :: ls₃) : (Statement.ret (some e)).Covers ls ls₃ where
  writable := .ret fun _ hmem => Option.some.inj hmem ▸ h.writable
  tokens := by
    rw [hreturn, significant_keyword (by decide), h.tokens, hend, significant_semicolon,
      Statement.tokens]
    simp
  noElse := nofun

theorem expression (h : e.Covers ls ls₁) (hend : ls₁ = [';'] :: ls₂) :
    (Statement.expression e).Covers ls ls₂ where
  writable := .expression h.writable
  tokens := by
    rw [h.tokens, hend, significant_semicolon, Statement.tokens]
    simp
  noElse := nofun

theorem empty (hend : ls = [';'] :: ls₁) : Statement.empty.Covers ls ls₁ where
  writable := .empty
  tokens := by
    rw [hend, significant_semicolon]
    rfl
  noElse := nofun

end Statement.Covers

end

/-- The rules that return expressions. -/
def expressionNames : List String :=
  "Expression" :: (tiers.map Tier.name ++ ["Unary", "Primary", "Integer", "Identifier"])

/-- The rules that return statements. -/
def statementNames : List String := statementRules.map (·.name)

def coversExpression (ls : List (List Char)) : Endings (Option Value) Unit :=
  .onHit fun ls' v => ∃ e, v = some (.expression e) ∧ e.Covers ls ls'

def coversStatement (ls : List (List Char)) : Endings (Option Value) Unit :=
  .onHit fun ls' v => ∃ s, v = some (.statement s) ∧ s.Covers ls ls'

/-- Whatever the rules return covers what they have read. -/
structure Covering (call : Rules) : Prop where
  expression : ∀ rule ∈ expressionNames, ∀ ls, RuleLeads (call rule) ls (coversExpression ls)
  statement : ∀ rule ∈ statementNames, ∀ ls, RuleLeads (call rule) ls (coversStatement ls)

/-! ### Expressions -/

section

variable {gap : Reader Value Unit} {call : Rules} {ls : List (List Char)} {f : Frame Value}
  {P : List (List Char) → Frame Value → Prop} {R : Frame Value → Prop}

/-- Where the reasons to stop do not matter, every gap may be crossed. -/
theorem passes_any (gap : Reader Value Unit) (ls : List (List Char)) :
    Passes gap (fun _ => True) ls := fun _ _ _ _ _ _ _ => trivial

namespace Covering

/-- Calling a rule that returns an expression. -/
theorem calling (hc : Covering call) {rule : String} (hrule : rule ∈ expressionNames)
    (hhit : ∀ e ls', e.Covers ls ls' → P ls' (f.setInstance rule (.expression e)))
    (hmiss : R f) : Leads (calling call rule) ls f ⟨P, R, fun _ => True⟩ := by
  refine .nonterminal ((hc.expression rule hrule ls).mono ?_ (fun _ _ => hmiss) fun _ => id)
  rintro ls' v ⟨e, rfl, he⟩
  exact hhit e ls' he

theorem demanding (hc : Covering call) {rule : String} (hrule : rule ∈ expressionNames)
    (hhit : ∀ e ls', e.Covers ls ls' → P ls' (f.setInstance rule (.expression e))) :
    Leads (demanding call rule) ls f ⟨P, R, fun _ => True⟩ :=
  .expect (hc.calling hrule hhit trivial)

/-- What a call returns is returned. -/
theorem passOn (hc : Covering call) {rule : String} (hrule : rule ∈ expressionNames)
    (hf : f.instances = [])
    (hhit : ∀ e ls', e.Covers ls ls' → P ls' (f.setValue (.expression e))) (hmiss : R f) :
    Leads (action (passOn rule) (Cpp.calling call rule)) ls f ⟨P, R, fun _ => True⟩ := by
  refine .action (hc.calling hrule (fun e ls' he => ?_) hmiss)
  exact ⟨_, passOn_of hf rule e, hhit e ls' he⟩

theorem level (hc : Covering call) (h : LexicalRules gap call) {t : Tier} (ht : t ∈ tiers)
    {operand : String} (hoperand : operand ∈ expressionNames) :
    RuleLeads (readLevel gap call operand t.operators) ls (coversExpression ls) := by
  have hreads : (readOperation gap call operand t.operators).Reads 1 :=
    (((readOperator_reads t.operators).seq (h.gapReads.seq
      (Reads.nonterminal (h.reads operand) _ _).expect)).action _).mono (by omega)
  refine .activation (.spaced h.crosses (hc.passOn hoperand rfl (fun e ls₁ he => ?_) trivial))
  refine ⟨passes_any gap ls₁, ?_⟩
  -- Before each round an expression that covers all lexemes so far is the value of the frame.
  let start : Frame Value := (Frame.ofLocals ["op"]).bindInherited [] []
  refine .star (I := fun ls' f => ∃ l : Expression, f = start.setValue (.expression l) ∧
    l.Covers ls ls') h.crosses h.gapReads hreads (fun ls' _ _ => passes_any gap ls') ?_ ⟨e, rfl, he⟩
  rintro ls₂ _ ⟨l, rfl, hl⟩
  refine .action (.spaced h.crosses (.operator (picks_tier t ht) (fun op _ ls₃ hop => ?_)
    fun _ => ?_))
  · refine ⟨passes_any gap ls₃, hc.demanding hoperand fun r ls₄ hr => ?_⟩
    exact ⟨_, fun text => combine_of text operand op l r, _, rfl, hl.binary hop hr⟩
  · exact ⟨_, rfl, l, rfl, hl⟩

/-- A sign and the operand behind it. -/
theorem signed (hc : Covering call) (h : LexicalRules gap call) {op : UnaryOp} {sign : Char}
    {f : Frame Value} (hf : f.instances = [])
    (hsign : Leads (oneChar (· == sign)) ls f
      ⟨fun ls' f' => ls = op.symbol.toList :: ls' ∧ f' = f, R, fun _ => True⟩)
    (hhit : ∀ e ls', e.Covers ls ls' → P ls' (f.setValue (.expression e))) :
    Leads (readSigned gap call sign op) ls f ⟨P, R, fun _ => True⟩ := by
  refine .action (.spaced h.crosses (hsign.mono ?_ (fun _ => id) fun _ => id))
  rintro ls₁ _ ⟨hop, rfl⟩
  refine ⟨passes_any gap ls₁, hc.demanding (by decide) fun e ls₂ he => ?_⟩
  exact ⟨_, fun text => applyUnary_of text hf op e, hhit _ ls₂ (he.unary hop)⟩

/-- An exclamation mark, which no equals sign follows, and the operand behind it. -/
theorem not (hc : Covering call) (h : LexicalRules gap call) {f : Frame Value}
    (hf : f.instances = [])
    (hhit : ∀ e ls', e.Covers ls ls' → P ls' (f.setValue (.expression e))) (hmiss : R f) :
    Leads (readSigned gap call '!' .not) ls f ⟨P, R, fun _ => True⟩ := by
  by_cases hequals : ls.head? = some "!=".toList
  · rintro w u hw rfl
    obtain ⟨why, v, hstop⟩ := h.stop_notEqual ((hw.first_eq_iff (by decide)).2 hequals) f u
    rw [hstop]
    trivial
  · refine hc.signed h hf (.of_first (t := ['!']) (by simp) (fun w u hw hls => ?_)
      (fun ls' hls => ⟨hls, rfl⟩) fun _ => hmiss) hhit
    subst hls
    exact readNot_eq (mt (hw.first_eq_iff (by decide)).1 hequals) f u

theorem unary (hc : Covering call) (h : LexicalRules gap call) :
    RuleLeads (readUnary gap call) ls (coversExpression ls) := by
  let start : Frame Value := (Frame.ofLocals []).bindInherited [] []
  have hvalue (e : Expression) (ls' : List (List Char)) (he : e.Covers ls ls') :
      ∃ v, (start.setValue (.expression e)).value = some v ∧
        (coversExpression ls).hit ls' (some v) := ⟨_, rfl, e, rfl, he⟩
  refine .activation (.choice (hc.signed h rfl (.char longest_minus
    (fun ls' hls => ⟨hls, rfl⟩) fun _ => ?_) hvalue))
  refine .choice (hc.not h rfl hvalue ?_)
  exact hc.passOn (by decide) rfl hvalue trivial

theorem primary (hc : Covering call) (h : LexicalRules gap call) :
    RuleLeads (readPrimary gap call) ls (coversExpression ls) := by
  let start : Frame Value := (Frame.ofLocals []).bindInherited [] []
  have hvalue (e : Expression) (ls' : List (List Char)) (he : e.Covers ls ls') :
      ∃ v, (start.setValue (.expression e)).value = some v ∧
        (coversExpression ls).hit ls' (some v) := ⟨_, rfl, e, rfl, he⟩
  refine .activation (.choice (hc.passOn (by decide) rfl hvalue ?_))
  refine .choice (hc.passOn (by decide) rfl hvalue ?_)
  refine .action (.spaced h.crosses (.mark (by decide) (fun ls₁ hopen => ?_)
    fun _ => trivial))
  refine ⟨passes_any gap ls₁, .spaced h.crosses (hc.demanding (by decide) fun e ls₂ he => ?_)⟩
  refine ⟨passes_any gap ls₂, .expect (.mark (by decide) (fun ls₃ hclose => ?_)
    fun _ => trivial)⟩
  exact ⟨_, passOn_of rfl "Expression" e, hvalue e ls₃ (he.parenthesized hopen hclose)⟩

end Covering

/-- A number is covered by its value. -/
theorem number_covers (ls : List (List Char)) : RuleLeads readNumber ls (coversExpression ls) := by
  rintro w u hw rfl
  rw [readNumber_eq]
  split
  · next hdigit =>
    split
    · next hrange =>
      refine ⟨_, rfl, ⟨Int.natCast_nonneg _, Int.ofNat_le.2 hrange⟩, ?_⟩
      have hne : w ≠ [] := by
        rintro rfl
        cases hdigit
      rw [← head?_firstLexeme] at hdigit
      have hparenthesis : firstLexeme w ∉ parentheses := fun hmem => by
        have hnot : ∀ l ∈ parentheses, ¬ l.head?.any Char.isDigit := by decide
        exact hnot _ hmem hdigit
      rw [hw.lexemes_cons hne, significant_cons hparenthesis, Token.ofLexeme, if_pos hdigit]
      rfl
    · trivial
  · trivial

/-- A name is covered as it stands. -/
theorem name_covers (ls : List (List Char)) : RuleLeads readName ls (coversExpression ls) := by
  rintro w u hw rfl
  rw [readName_eq]
  split
  · next hname =>
    obtain ⟨hstart, hreserved⟩ := hname
    cases w with
    | nil => cases hstart
    | cons c w =>
        have hc : isIdStart c := hstart
        have hword := firstLexeme_word hc w
        refine ⟨_, rfl, ⟨?_, ?_, hreserved⟩, ?_⟩
        · rw [String.toList_ofList, hword]
          exact hc
        · rw [String.toList_ofList, hword]
          exact List.all_takeWhile
        · have hplain : firstLexeme (c :: w) ∉ parentheses ∧
              (firstLexeme (c :: w)).head?.any Char.isDigit = false := by
            rw [hword]
            refine ⟨fun hmem => ?_, Bool.eq_false_iff.2 fun hdigit => ?_⟩
            · have hnot : ∀ l ∈ parentheses, ¬ l.head?.any isIdStart := by decide
              exact hnot _ hmem hc
            · exact Bool.false_ne_true ((isIdStart_of_isDigit hdigit).symm.trans hc)
          rw [hw.lexemes_cons (by simp), significant_plain hplain.1 hplain.2, Expression.tokens,
            String.toList_ofList]
          rfl
  · trivial

/-! ### Statements -/

namespace Covering

/-- Calling a rule that returns a statement, under whatever name. -/
theorem callingAs (hc : Covering call) {rule : String} (hrule : rule ∈ statementNames)
    (instanceName : String)
    (hhit : ∀ s ls', s.Covers ls ls' → P ls' (f.setInstance instanceName (.statement s)))
    (hmiss : R f) :
    Leads (.nonterminal (call rule) instanceName []) ls f ⟨P, R, fun _ => True⟩ := by
  refine .nonterminal ((hc.statement rule hrule ls).mono ?_ (fun _ _ => hmiss) fun _ => id)
  rintro ls' v ⟨s, rfl, hs⟩
  exact hhit s ls' hs

theorem demandingStatement (hc : Covering call)
    (hhit : ∀ s ls', s.Covers ls ls' → P ls' (f.setInstance "Statement" (.statement s))) :
    Leads (Cpp.demanding call "Statement") ls f ⟨P, R, fun _ => True⟩ :=
  .expect (hc.callingAs (by decide) "Statement" hhit trivial)

/-- A mark that has to stand here. -/
theorem demandingChar {c : Char} (hc : c ∈ punctuation)
    (hhit : ∀ ls', ls = [c] :: ls' → P ls' f) :
    Leads (demandingChar c) ls f ⟨P, R, fun _ => True⟩ :=
  .expect (.mark hc hhit fun _ => trivial)

theorem condition (hc : Covering call) (h : LexicalRules gap call)
    (hhit : ∀ e ls', e.Covers ls ls' → P ls' (f.setInstance "Expression" (.expression e))) :
    Leads (readCondition gap call) ls f ⟨P, R, fun _ => True⟩ := by
  refine .spaced h.crosses (.spaced h.crosses (demandingChar (by decide) fun ls₁ hopen => ?_))
  refine ⟨passes_any gap ls₁, hc.demanding (by decide) fun e ls₂ he => ?_⟩
  refine ⟨passes_any gap ls₂, demandingChar (by decide) fun ls₃ hclose => ?_⟩
  exact hhit e ls₃ (he.parenthesized hopen hclose)

theorem statement_covers (hc : Covering call) :
    RuleLeads (readStatement call) ls (coversStatement ls) := by
  let start : Frame Value := (Frame.ofLocals []).bindInherited [] []
  have hpass (s : Statement) (ls' : List (List Char)) (hs : s.Covers ls ls') :
      ∃ f', (∀ text, passStatement (.of (start.setInstance "statement" (.statement s)) text ()) =
          .of f' text ()) ∧ ∃ v, f'.value = some v ∧ (coversStatement ls).hit ls' (some v) :=
    ⟨_, fun text => passStatement_of text rfl s, _, rfl, s, rfl, hs⟩
  refine .activation (.action (.choice (hc.callingAs (by decide) _ hpass ?_)))
  refine .choice (hc.callingAs (by decide) _ hpass ?_)
  refine .choice (hc.callingAs (by decide) _ hpass ?_)
  refine .choice (hc.callingAs (by decide) _ hpass ?_)
  refine .choice (hc.callingAs (by decide) _ hpass ?_)
  exact hc.callingAs (by decide) _ hpass trivial

/-- A compound statement returns the statements it has read, however many there are. -/
theorem compound (hc : Covering call) (h : LexicalRules gap call) :
    RuleLeads (readCompound gap call) ls (.onHit fun ls' v => ∃ body,
      v = some (.statement (.compound body)) ∧ (Statement.compound body).Covers ls ls') := by
  have hreads : (action addStatement (Cpp.calling call "Statement")).Reads 1 :=
    (Reads.nonterminal (h.reads _) _ _).action _
  let start : Frame Value := (Frame.ofLocals []).bindInherited [] []
  refine .activation (.spaced h.crosses (.action (.mark (by decide) (fun ls₁ hopen => ?_)
    fun _ => trivial)))
  refine ⟨start.setValue (.statement (.compound [])), fun _ => rfl, passes_any gap ls₁, ?_⟩
  -- Before each round the statements so far have the tokens of all lexemes so far.
  refine .spaced h.crosses (.star (I := fun ls' f => ∃ body,
    f = start.setValue (.statement (.compound body)) ∧ (∀ s ∈ body, s.Writable) ∧
      significant ls₁ = Statement.tokensAll body ++ significant ls') h.crosses h.gapReads hreads
    (fun ls' _ _ => passes_any gap ls') ?_ ⟨[], rfl, nofun, rfl⟩)
  rintro ls₂ _ ⟨body, rfl, hbody, htokens⟩
  refine .action (hc.callingAs (by decide) "Statement" (fun s ls₃ hs => ?_) ?_)
  · refine ⟨_, fun text => addStatement_of text rfl body s, body ++ [s], rfl, ?_, ?_⟩
    · intro t ht
      rcases List.mem_append.1 ht with hbefore | hlast
      · exact hbody t hbefore
      · exact List.mem_singleton.1 hlast ▸ hs.writable
    · rw [htokens, hs.tokens, Statement.tokensAll_append]
      simp [Statement.tokensAll]
  · refine ⟨passes_any gap ls₂, demandingChar (by decide) fun ls₃ hclose => ?_⟩
    exact ⟨_, rfl, body, rfl, .compound hopen hbody htokens hclose⟩

/-- An `else` is taken wherever one stands, so none is left behind an if statement without it. -/
theorem ifThen (hc : Covering call) (h : LexicalRules gap call) :
    RuleLeads (readIf gap call) ls (coversStatement ls) := by
  refine .activation (.spaced h.crosses (.action (.spaced h.crosses (.keyword (by decide)
    (fun ls₁ hif => ?_) fun _ => trivial))))
  refine ⟨passes_any gap ls₁, .spaced h.crosses (hc.condition h fun e ls₂ he => ?_)⟩
  refine ⟨passes_any gap ls₂, hc.demandingStatement fun s ls₃ hs => ?_⟩
  refine ⟨_, fun text => setConditional_of text rfl .ifThen e s, passes_any gap ls₃, ?_⟩
  refine .optional (.action (.spaced h.crosses (.keyword (by decide) (fun ls₄ helse => ?_)
    fun hend => ?_)))
  · refine ⟨passes_any gap ls₄, hc.demandingStatement fun t ls₅ ht => ?_⟩
    exact ⟨_, fun text => addElse_of text rfl e s t, _, rfl, _, rfl, .ifElse hif he hs helse ht⟩
  · exact ⟨_, rfl, _, rfl, .ifThen hif he hs hend⟩

theorem loop (hc : Covering call) (h : LexicalRules gap call) :
    RuleLeads (readWhile gap call) ls (coversStatement ls) := by
  refine .activation (.action (.spaced h.crosses (.keyword (by decide) (fun ls₁ hwhile => ?_)
    fun _ => trivial)))
  refine ⟨passes_any gap ls₁, .spaced h.crosses (hc.condition h fun e ls₂ he => ?_)⟩
  refine ⟨passes_any gap ls₂, hc.demandingStatement fun s ls₃ hs => ?_⟩
  exact ⟨_, fun text => setConditional_of text rfl .loop e s, _, rfl, _, rfl, .loop hwhile he hs⟩

theorem ret (hc : Covering call) (h : LexicalRules gap call) :
    RuleLeads (readReturn gap call) ls (coversStatement ls) := by
  refine .activation (.action (.spaced h.crosses (.keyword (by decide) (fun ls₁ hreturn => ?_)
    fun _ => trivial)))
  refine ⟨passes_any gap ls₁, .spaced h.crosses (.optional (hc.calling (by decide)
    (fun e ls₂ he => ?_) ?_))⟩
  · refine ⟨passes_any gap ls₂, demandingChar (by decide) fun ls₃ hend => ?_⟩
    exact ⟨_, fun text => setReturn_of text rfl (some e), _, rfl, _, rfl, .ret_some hreturn he hend⟩
  · refine ⟨passes_any gap ls₁, demandingChar (by decide) fun ls₂ hend => ?_⟩
    exact ⟨_, fun text => setReturn_of text rfl none, _, rfl, _, rfl, .ret_none hreturn hend⟩

theorem expressionStatement (hc : Covering call) (h : LexicalRules gap call) :
    RuleLeads (readExpressionStatement gap call) ls (coversStatement ls) := by
  refine .activation (.action (.spaced h.crosses (hc.calling (by decide) (fun e ls₁ he => ?_)
    trivial)))
  refine ⟨passes_any gap ls₁, demandingChar (by decide) fun ls₂ hend => ?_⟩
  exact ⟨_, fun text => setExpressionStatement_of text rfl e, _, rfl, _, rfl, .expression he hend⟩

end Covering

theorem empty_covers (ls : List (List Char)) : RuleLeads readEmpty ls (coversStatement ls) := by
  refine .activation (.action (.mark (by decide) (fun ls₁ hend => ?_) fun _ => trivial))
  let start : Frame Value := (Frame.ofLocals []).bindInherited [] []
  exact ⟨start.setValue (.statement .empty), fun _ => rfl, _, rfl, _, rfl, .empty hend⟩

/-! ### All rules -/

theorem Covering.readRule (hc : Covering call) (h : LexicalRules gap call) :
    Covering (readRule gap call) where
  expression rule hrule ls := by
    simp only [expressionNames, List.mem_cons, List.mem_append, List.not_mem_nil, or_false] at hrule
    rcases hrule with rfl | htier | rfl | rfl | rfl | rfl
    · exact .activation (hc.passOn (by decide) rfl (fun e ls' he => ⟨_, rfl, e, rfl, he⟩) trivial)
    · obtain ⟨t, ht, rfl⟩ := List.mem_map.1 htier
      obtain ⟨front, back, hsplit⟩ := List.append_of_mem ht
      have hentry : entry back ∈ expressionNames := by
        cases back with
        | nil => decide
        | cons t' back =>
            have ht' : t' ∈ tiers := by simp [hsplit]
            exact List.mem_cons_of_mem _ (List.mem_append_left _ (List.mem_map_of_mem ht'))
      rw [readRule_tier gap call ⟨front, hsplit.symm⟩]
      exact hc.level h ht hentry
    · exact hc.unary h
    · exact hc.primary h
    · exact number_covers ls
    · exact name_covers ls
  statement rule hrule ls := by
    simp only [statementNames, statementRules, List.map_cons, List.map_nil, List.mem_cons,
      List.not_mem_nil, or_false] at hrule
    rcases hrule with rfl | rfl | rfl | rfl | rfl | rfl | rfl
    · exact hc.statement_covers
    · refine (hc.compound h).mono ?_ (fun _ => id) fun _ => id
      rintro ls' v ⟨body, rfl, hbody⟩
      exact ⟨_, rfl, hbody⟩
    · exact hc.ifThen h
    · exact hc.loop h
    · exact hc.ret h
    · exact empty_covers ls
    · exact hc.expressionStatement h

end

/-- However many activations may be nested, all rules return what covers the lexemes they read. -/
theorem covering (levels : Nat) : Covering (reader levels true) := by
  induction levels with
  | zero => exact ⟨fun _ _ _ _ _ _ _ => trivial, fun _ _ _ _ _ _ _ => trivial⟩
  | succ levels ih =>
      rw [show reader (levels + 1) true = readRule (gap levels true) (reader levels true) from
        funext (reader_succ levels true)]
      exact ih.readRule (lexicalRules levels)

/-! ### Accepted texts -/

/-- No input is accepted that is too long. -/
theorem short_of_ok {α : Type} {pick : Value → Option α} {grammar : GrammarDecl Value Unit}
    {name input fileName : String} {config : Config} {tree : α}
    (h : (parseAs pick grammar name config input { fileName }).outcome = .ok tree) :
    config.maxInputLength = 0 ∨ input.toList.length ≤ config.maxInputLength := by
  have hlength : (Buffer.ofString input).size = input.toList.length := by simp [Buffer.ofString]
  by_contra hlong
  unfold parseAs at h
  cases hg : require (domain config) grammar.qualifiedName with
  | error e =>
      rw [hg] at h
      cases h
  | ok g =>
      rw [← config_domain config, ← hlength] at hlong
      obtain ⟨he, -⟩ := parse_tooLong (g := g) (Buffer.ofString input) hlong { fileName } ()
      rw [hg] at h
      dsimp only at h
      rw [he] at h
      cases h

variable {config : Config} {input fileName : String}

/-- An expression that is returned covers all lexemes of the text. -/
theorem parseExpression_covers {e : Expression}
    (h : (parseExpression config input { fileName }).outcome = .ok e) :
    e.Covers (lexemes input.toList) [] := by
  have hpicked := parseExpression_denotes config input fileName (short_of_ok h)
  rw [h] at hpicked
  have hrule := (covering (levels config input.toList.length)).expression "Expression" (by decide)
  obtain ⟨v, hv, e', he', hcovers⟩ := hit_of_picked (hrule _) hpicked.symm
  cases he'
  cases hv
  exact hcovers

/-- So does a statement, and it is a compound statement. -/
theorem parseStatement_covers {s : Statement}
    (h : (parseStatement config input { fileName }).outcome = .ok s) :
    (∃ body, s = .compound body) ∧ s.Covers (lexemes input.toList) [] := by
  have hpicked := parseStatement_denotes config input fileName (short_of_ok h)
  rw [h] at hpicked
  have hrule (levels : Nat) (ls : List (List Char)) :
      RuleLeads (reader levels true "CompoundStatement") ls (.onHit fun ls' v => ∃ body,
        v = some (.statement (.compound body)) ∧ (Statement.compound body).Covers ls ls') := by
    cases levels with
    | zero => exact fun _ _ _ _ => trivial
    | succ levels =>
        rw [reader_succ]
        exact (covering levels).compound (lexicalRules levels)
  obtain ⟨v, hv, body, hbody, hcovers⟩ := hit_of_picked (hrule _ _) hpicked.symm
  cases hbody
  cases hv
  exact ⟨⟨body, rfl⟩, hcovers⟩

/-- No token is lost, repeated or moved: apart from parentheses, the lexemes of an accepted text are
the tokens of the tree. -/
theorem parse_tokens (config : Config) (input fileName : String) :
    (∀ s, (parseStatement config input { fileName }).outcome = .ok s →
        significant (lexemes input.toList) = s.tokens) ∧
      ∀ e, (parseExpression config input { fileName }).outcome = .ok e →
        significant (lexemes input.toList) = e.tokens := by
  constructor
  · intro s hs
    rw [(parseStatement_covers hs).2.tokens, significant_nil, List.append_nil]
  · intro e he
    rw [(parseExpression_covers he).tokens, significant_nil, List.append_nil]

/-- Redundant parentheses, leading zeros and a comment. -/
theorem parse_tokens_loop :
    let statement := "\x7b while ((x)) -007 /* ; */; \x7d"
    let expression := "((x) < 007)"
    let e : Expression := .binary .less (.identifier "x") (.integer 7)
    (∃ s, (parseStatement {} statement {}).outcome = .ok s ∧
        s.outline 0 = "compound\n  while x\n    -7\n" ∧
        significant (lexemes statement.toList) = s.tokens) ∧
      (parseExpression {} expression {}).outcome = .ok e ∧
      significant (lexemes expression.toList) = e.tokens := by
  intro statement expression e
  have hstatement : (parseStatement {} statement {}).outcome.toOption.map (·.outline 0) =
      some "compound\n  while x\n    -7\n" := by
    decide +kernel
  have hexpression : (parseExpression {} expression {}).outcome = .ok e :=
    ok_of_toOption (by decide +kernel)
  obtain ⟨s, hs, houtline⟩ := Option.map_eq_some_iff.1 hstatement
  exact ⟨⟨s, ok_of_toOption hs, houtline, (parse_tokens {} statement "").1 s (ok_of_toOption hs)⟩,
    hexpression, (parse_tokens {} expression "").2 e hexpression⟩

/-- In an accepted statement each `else` belongs to the nearest if statement before it that has none
yet, and all its expressions are such as can be written. -/
theorem parseStatement_writable {s : Statement}
    (h : (parseStatement config input { fileName }).outcome = .ok s) :
    (∃ body, s = .compound body) ∧ s.Writable :=
  ⟨(parseStatement_covers h).1, (parseStatement_covers h).2.writable⟩

/-- Two if statements end where the `else` stands, one of them inside a loop. -/
theorem parseStatement_writable_nested :
    let input := "\x7b if (a) while (b) if (c) x; /* */ else y; \x7d"
    ∃ s, (parseStatement {} input {}).outcome = .ok s ∧
      s.outline 0 =
        "compound\n  if a\n    while b\n      if c\n        x\n      else\n        y\n" ∧
      (∃ body, s = .compound body) ∧ s.Writable := by
  intro input
  have hinput : (parseStatement {} input {}).outcome.toOption.map (·.outline 0) =
      some "compound\n  if a\n    while b\n      if c\n        x\n      else\n        y\n" := by
    decide +kernel
  obtain ⟨s, hs, houtline⟩ := Option.map_eq_some_iff.1 hinput
  exact ⟨s, ok_of_toOption hs, houtline, parseStatement_writable (ok_of_toOption hs)⟩

end AttrGrammar.Cpp

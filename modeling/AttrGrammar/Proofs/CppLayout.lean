import AttrGrammar.Proofs.CppSpacing
import AttrGrammar.Proofs.CppTokens
import AttrGrammar.Proofs.Nesting

/-! Layout makes no difference. Two texts with the same lexemes are read alike: a gap is crossed in
both of them to where a lexeme begins, every single lexeme is read whole or not at all, and between
any two of them the grammars have a gap. So what reads them does the same to both, step by step, and
leaves texts with the same lexemes again. -/

namespace AttrGrammar.Cpp
open Text Peg Parse
open Reader Context

variable {α β μ ν : Type}

/-! ### Outcomes for texts with the same lexemes -/

/-- The same came of reading two texts, and behind a hit they have the same lexemes left. Why reading
stopped for good is not compared. -/
inductive SameOutcome : Outcome α μ Unit → Outcome α μ Unit → Prop where
  | hit {rest rest' : List Char} (h : lexemes rest = lexemes rest') (a : α) (u : Unit) :
    SameOutcome (.hit rest a u) (.hit rest' a u)
  | miss (m : μ) (u : Unit) : SameOutcome (.miss m u) (.miss m u)
  | stop (why why' : Stop) (u u' : Unit) : SameOutcome (.stop why u) (.stop why' u')

namespace SameOutcome

variable {o o' : Outcome α μ Unit}

theorem andThen {next next' : List Char → α → Unit → Outcome β μ Unit} (h : SameOutcome o o')
    (hnext : ∀ rest rest' a u, lexemes rest = lexemes rest' →
      SameOutcome (next rest a u) (next' rest' a u)) :
    SameOutcome (o.andThen next) (o'.andThen next') := by
  cases h with
  | hit h a u => exact hnext _ _ a u h
  | miss m u => exact .miss m u
  | stop why why' u u' => exact .stop why why' u u'

theorem orElse {other other' : μ → Unit → Outcome α ν Unit} (h : SameOutcome o o')
    (hother : ∀ m u, SameOutcome (other m u) (other' m u)) :
    SameOutcome (o.orElse other) (o'.orElse other') := by
  cases h with
  | hit h a u => exact .hit h a u
  | miss m u => exact hother m u
  | stop why why' u u' => exact .stop why why' u u'

theorem map (h : SameOutcome o o') (onHit : α → β) (onMiss : μ → ν) :
    SameOutcome (o.map onHit onMiss) (o'.map onHit onMiss) := by
  cases h with
  | hit h a u => exact .hit h (onHit a) u
  | miss m u => exact .miss (onMiss m) u
  | stop why why' u u' => exact .stop why why' u u'

end SameOutcome

/-- Settled texts with the same lexemes are read alike. -/
def Lexical (x : Reader Value Unit) : Prop :=
  ∀ w w' f u, Alike w w' → SameOutcome (x w f u) (x w' f u)

/-- The rule reads settled texts with the same lexemes alike. -/
def LexicalRule (call : Callee Value Unit) : Prop :=
  ∀ args w w' u, Alike w w' → SameOutcome (call args w u) (call args w' u)

/-- A gap is crossed to the end of the layout, unless a comment is never closed; or it stops reading
in any case, where no more activations may be nested. -/
def Crosses (gap : Reader Value Unit) : Prop :=
  (∀ w f u, ∃ why v, gap w f u = .stop why v) ∨
    ∀ w f u, gap w f u =
      if "/*".toList <+: skipLayout w then .stop .expected u else .hit (skipLayout w) f u

theorem crosses_gap (levels : Nat) : Crosses (gap levels true) := by
  cases levels with
  | zero => exact .inl fun w f u => ⟨.tooDeep, u, rfl⟩
  | succ levels => exact .inr fun w f u => gap_eq w f u levels

section

variable {gap x y : Reader Value Unit} {call : Callee Value Unit}

/-- Behind a gap the texts are settled. -/
theorem Crosses.seq (hgap : Crosses gap) (hy : Lexical y) {w w' : List Char}
    (h : lexemes w = lexemes w') (f : Frame Value) (u : Unit) :
    SameOutcome (gap.seq y w f u) (gap.seq y w' f u) := by
  unfold Reader.seq
  rcases hgap with hstops | hcrosses
  · obtain ⟨why, v, hw⟩ := hstops w f u
    obtain ⟨why', v', hw'⟩ := hstops w' f u
    rw [hw, hw']
    exact .stop why why' v v'
  · rw [hcrosses, hcrosses]
    by_cases hcomment : "/*".toList <+: skipLayout w
    · rw [if_pos hcomment, if_pos ((comment_iff_of_lexemes_eq h).1 hcomment)]
      exact .stop _ _ u u
    · rw [if_neg hcomment, if_neg (mt (comment_iff_of_lexemes_eq h).2 hcomment)]
      exact hy _ _ f u (alike_skipLayout h hcomment)

/-- Two parts, the first of which reads two texts alike. -/
theorem SameOutcome.spaced (hgap : Crosses gap) (hy : Lexical y) {w w' : List Char}
    {f : Frame Value} {u : Unit} (hx : SameOutcome (x w f u) (x w' f u)) :
    SameOutcome (spaced gap x y w f u) (spaced gap x y w' f u) :=
  hx.andThen fun _ _ f u h => hgap.seq hy h f u

/-- An action that has no regard to the text does the same for both texts. -/
theorem SameOutcome.action {run : ActionContext Value Unit → ActionContext Value Unit}
    (hrun : Textless run) {w w' : List Char} {f : Frame Value} {u : Unit}
    (hx : SameOutcome (x w f u) (x w' f u)) :
    SameOutcome (Reader.action run x w f u) (Reader.action run x w' f u) := by
  refine hx.andThen fun rest rest' f u hrest => ?_
  rw [hrun.of_eq f (consumed w rest) (consumed w' rest') u]
  dsimp only
  split
  · exact .stop _ _ _ _
  · split
    · exact .hit hrest _ _
    · exact .miss _ _

/-- Rounds with gaps before them. -/
theorem Crosses.iterate (hgap : Crosses gap) (hx : Lexical x) (hreads : x.Reads 1)
    {w w' : List Char} (h : lexemes w = lexemes w') (f : Frame Value) (u : Unit) :
    SameOutcome (iterate (gap.seq x) w f u) (iterate (gap.seq x) w' f u) := by
  have hcross := hgap
  rcases hcross with hstops | hcrosses
  · obtain ⟨why, v, hw⟩ := hstops w f u
    obtain ⟨why', v', hw'⟩ := hstops w' f u
    rw [iterate_stop (seq_stop hw), iterate_stop (seq_stop hw')]
    exact .stop why why' v v'
  have hw := hcrosses w f u
  have hw' := hcrosses w' f u
  by_cases hcomment : "/*".toList <+: skipLayout w
  · rw [if_pos hcomment] at hw
    rw [if_pos ((comment_iff_of_lexemes_eq h).1 hcomment)] at hw'
    rw [iterate_stop (seq_stop hw), iterate_stop (seq_stop hw')]
    exact .stop _ _ u u
  rw [if_neg hcomment] at hw
  rw [if_neg (mt (comment_iff_of_lexemes_eq h).2 hcomment)] at hw'
  have hround := hx _ _ f u (alike_skipLayout h hcomment)
  generalize ho : x (skipLayout w) f u = o at hround
  generalize ho' : x (skipLayout w') f u = o' at hround
  cases hround with
  | hit hrest f' u' =>
      have hlt := Nat.lt_of_lt_of_le (hreads _ _ _ _ _ _ ho) (length_skipLayout_le w)
      have hlt' := Nat.lt_of_lt_of_le (hreads _ _ _ _ _ _ ho') (length_skipLayout_le w')
      rw [iterate_hit ((seq_hit hw).trans ho) hlt, iterate_hit ((seq_hit hw').trans ho') hlt']
      exact Crosses.iterate hgap hx hreads hrest f' u'
  | miss f' u' =>
      rw [iterate_miss ((seq_hit hw).trans ho), iterate_miss ((seq_hit hw').trans ho')]
      exact .hit h f' u'
  | stop why why' u' v' =>
      rw [iterate_stop ((seq_hit hw).trans ho), iterate_stop ((seq_hit hw').trans ho')]
      exact .stop why why' u' v'
  termination_by w.length

namespace Lexical

theorem choice (hx : Lexical x) (hy : Lexical y) : Lexical (x.choice y) :=
  fun w w' f u h => (hx w w' f u h).orElse fun f u => hy w w' f u h

theorem optional (hx : Lexical x) : Lexical (Reader.optional x) :=
  fun w w' f u h => (hx w w' f u h).orElse fun f u => .hit h.lexemes f u

theorem expect (hx : Lexical x) : Lexical (expect x) :=
  fun w w' f u h => (hx w w' f u h).orElse fun _ u => .stop .expected .expected u u

theorem spaced (hgap : Crosses gap) (hx : Lexical x) (hy : Lexical y) : Lexical (spaced gap x y) :=
  fun w w' f u h => (hx w w' f u h).spaced hgap hy

/-- A repetition of what always reads something. -/
theorem star (hgap : Crosses gap) (hx : Lexical x) (hreads : x.Reads 1) :
    Lexical (Reader.star gap x) := by
  refine optional fun w w' f u h => ?_
  unfold plus
  rw [hreads.progress_eq]
  have hfirst := hx w w' f u h
  generalize ho : x w f u = o at hfirst ⊢
  generalize ho' : x w' f u = o' at hfirst ⊢
  cases hfirst with
  | @hit rest rest' hrest f' u' =>
      have hlt : rest.length < w.length := hreads _ _ _ _ _ _ ho
      have hlt' : rest'.length < w'.length := hreads _ _ _ _ _ _ ho'
      rw [Outcome.andThen_hit, Outcome.andThen_hit, if_pos hlt, if_pos hlt']
      exact hgap.iterate hx hreads hrest f' u'
  | miss f' u' => exact .miss f' u'
  | stop why why' u' v' => exact .stop why why' u' v'

theorem action {run : ActionContext Value Unit → ActionContext Value Unit} (hrun : Textless run)
    (hx : Lexical x) : Lexical (Reader.action run x) :=
  fun w w' f u h => (hx w w' f u h).action hrun

theorem nonterminal (hcall : LexicalRule call) (instanceName : String) :
    Lexical (.nonterminal call instanceName []) :=
  fun w w' _ u h => (hcall [] w w' u h).map _ _

/-- What reads one lexeme, or misses where another one stands. -/
theorem of_first {t : List Char} (hx : ∀ w f u, x w f u =
      if firstLexeme w = t then .hit (behindLexeme w) f u else .miss f u) : Lexical x := by
  intro w w' f u h
  rw [hx, hx, h.first_eq]
  split
  · exact .hit h.behind_eq f u
  · exact .miss f u

theorem mark {t : List Char} (ht : Longest t) : Lexical (literal t) :=
  of_first fun _ => literal_mark_eq ht.1 ht.first_eq

theorem char {c : Char} (hc : Longest [c]) : Lexical (oneChar (· == c)) := by
  rw [oneChar_eq_literal]
  exact mark hc

theorem keyword {word : String} (hword : word ∈ keywords) : Lexical (readKeyword word) :=
  of_first (readKeyword_eq hword)

theorem operator {operators : List BinaryOp}
    (h : ∀ l ∈ marks, l ≠ "/*".toList → Picks operators l) : Lexical (readOperator operators) := by
  intro w w' f u hw
  rw [readOperator_eq (picks_of_marks h hw.left), readOperator_eq (picks_of_marks h hw.right),
    hw.first_eq]
  split
  · exact .hit hw.behind_eq _ u
  · exact .miss f u

end Lexical

/-- A rule with an own frame. -/
theorem LexicalRule.activation {tree : Reader Value Unit} (h : Lexical tree)
    (locals : List String) (hasValue : Bool) : LexicalRule (activation locals [] hasValue tree) := by
  intro args w w' u hw
  have htree := h w w' ((Frame.ofLocals locals).bindInherited [] args) u hw
  unfold Peg.activation
  generalize tree w ((Frame.ofLocals locals).bindInherited [] args) u = o at htree
  generalize tree w' ((Frame.ofLocals locals).bindInherited [] args) u = o' at htree
  cases htree with
  | hit hrest f u =>
      dsimp only
      split
      · cases f.value with
        | some v => exact .hit hrest (some v) u
        | none => exact .stop _ _ u u
      · exact .hit hrest none u
  | miss f u => exact .miss () u
  | stop why why' u u' => exact .stop why why' u u'

theorem LexicalRule.name : LexicalRule readName := by
  intro args w w' u h
  rw [readName_eq, readName_eq, h.head_eq, h.first_eq]
  split
  · exact .hit h.behind_eq _ u
  · exact .miss () u

theorem LexicalRule.number : LexicalRule readNumber := by
  intro args w w' u h
  rw [readNumber_eq, readNumber_eq, h.head_eq, h.first_eq]
  split
  · split
    · exact .hit h.behind_eq _ u
    · exact .stop _ _ u u
  · exact .miss () u

end

/-! ### The rules of the grammars -/

/-- What the reading of the rules relies on: gaps are crossed, and whatever is called reads two texts
alike, does not hit without reading anything, and as an operand does not begin with an equals sign. -/
structure LexicalRules (gap : Reader Value Unit) (call : Rules) : Prop where
  crosses : Crosses gap
  gapReads : gap.Reads 0
  lexical : ∀ rule, LexicalRule (call rule)
  reads : ∀ rule, (call rule).Reads 1
  equals : ∀ rule ∈ ["Unary", "Primary", "Integer", "Identifier"], ∀ args w u rest v u',
    call rule args ('=' :: w) u ≠ .hit rest v u'

section

variable {gap : Reader Value Unit} {call : Rules}

theorem readOperator_reads (operators : List BinaryOp) : (readOperator operators).Reads 1 := by
  induction operators with
  | nil =>
      intro w f u rest f' u' h
      cases h
  | cons op operators ih =>
      have hsymbol : 1 ≤ op.symbol.toList.length := by cases op <;> decide
      exact ((Reads.literal _).mono hsymbol).action _ |>.choice ih

namespace LexicalRules

theorem calling (h : LexicalRules gap call) (rule : String) : Lexical (calling call rule) :=
  .nonterminal (h.lexical rule) rule

theorem level (h : LexicalRules gap call) (operand : String) {operators : List BinaryOp}
    (hpicks : ∀ l ∈ marks, l ≠ "/*".toList → Picks operators l) :
    LexicalRule (readLevel gap call operand operators) := by
  have hdemanding : (demanding call operand).Reads 1 :=
    (Reads.nonterminal (h.reads operand) _ _).expect
  have hoperation : (readOperation gap call operand operators).Reads 1 :=
    (((readOperator_reads operators).seq (h.gapReads.seq hdemanding)).action _).mono (by omega)
  have hlexical : Lexical (readOperation gap call operand operators) :=
    .action (textless_combine operand)
      (.spaced h.crosses (.operator hpicks) (.expect (h.calling operand)))
  exact .activation (.spaced h.crosses (.action (textless_passOn operand) (h.calling operand))
    (.star h.crosses hlexical hoperation)) _ _

/-- A sign that two texts begin with, or neither of them. -/
theorem signed (h : LexicalRules gap call) (op : UnaryOp) {w w' : List Char} {sign : Char}
    {f : Frame Value} {u : Unit}
    (hsign : SameOutcome (oneChar (· == sign) w f u) (oneChar (· == sign) w' f u)) :
    SameOutcome (readSigned gap call sign op w f u) (readSigned gap call sign op w' f u) :=
  (hsign.spaced h.crosses (.expect (h.calling "Unary"))).action (textless_applyUnary op)

/-- Nothing that is required as an operand begins with an equals sign. -/
theorem stop_equals (h : LexicalRules gap call) (w : List Char) (f : Frame Value) (u : Unit) :
    ∃ why v, gap.seq (demanding call "Unary") ('=' :: w) f u = .stop why v := by
  have hoperand : ∃ why v, demanding call "Unary" ('=' :: w) f u = .stop why v := by
    have hnot := h.equals "Unary" (by simp) [] w u
    show ∃ why v, ((call "Unary" [] ('=' :: w) u).map _ _).orElse _ = .stop why v
    cases ho : call "Unary" [] ('=' :: w) u with
    | hit rest v u' => exact absurd ho (hnot rest v u')
    | miss m u' => exact ⟨_, _, rfl⟩
    | stop why u' => exact ⟨_, _, rfl⟩
  rcases h.crosses with hstops | hcrosses
  · obtain ⟨why, v, hw⟩ := hstops ('=' :: w) f u
    exact ⟨why, v, seq_stop hw⟩
  · have hsettled : skipLayout ('=' :: w) = '=' :: w := skipLayout_none rfl
    have hw := hcrosses ('=' :: w) f u
    rw [hsettled, if_neg (by simp)] at hw
    rwa [seq_hit hw]

/-- Where an equals sign follows the exclamation mark, no operand can be read behind it. -/
theorem stop_notEqual (h : LexicalRules gap call) {w : List Char}
    (hw : firstLexeme w = "!=".toList) (f : Frame Value) (u : Unit) :
    ∃ why v, readSigned gap call '!' .not w f u = .stop why v := by
  have hsplit := firstLexeme_append w
  rw [hw] at hsplit
  obtain ⟨why, v, hbehind⟩ := h.stop_equals (behindLexeme w) f u
  have hsign : oneChar (· == '!') w f u = .hit ('=' :: behindLexeme w) f u := by
    rw [← hsplit]
    rfl
  exact ⟨why, v, action_stop ((seq_hit hsign).trans hbehind)⟩

/-- An exclamation mark is either a lexeme, or an equals sign follows that is read as no operand. -/
theorem not (h : LexicalRules gap call) : Lexical (readSigned gap call '!' .not) := by
  intro w w' f u hw
  by_cases hequals : firstLexeme w = "!=".toList
  · obtain ⟨why, v, hstops⟩ := h.stop_notEqual hequals f u
    obtain ⟨why', v', hstops'⟩ := h.stop_notEqual (hw.first_eq ▸ hequals) f u
    rw [hstops, hstops']
    exact .stop why why' v v'
  · refine h.signed .not ?_
    rw [readNot_eq hequals, readNot_eq (hw.first_eq ▸ hequals), hw.first_eq]
    split
    · exact .hit hw.behind_eq f u
    · exact .miss f u

theorem minus (h : LexicalRules gap call) : Lexical (readSigned gap call '-' .negate) :=
  fun w w' f u hw => h.signed .negate (Lexical.char longest_minus w w' f u hw)

theorem unary (h : LexicalRules gap call) : LexicalRule (readUnary gap call) :=
  .activation (.choice h.minus (.choice h.not (.action (textless_passOn _) (h.calling _)))) _ _

theorem primary (h : LexicalRules gap call) : LexicalRule (readPrimary gap call) := by
  refine .activation (.choice (.action (textless_passOn _) (h.calling _))
    (.choice (.action (textless_passOn _) (h.calling _)) (.action (textless_passOn _) ?_))) _ _
  exact .spaced h.crosses (.char (longest_punctuation (by decide)))
    (.spaced h.crosses (.expect (h.calling _)) (.expect (.char (longest_punctuation (by decide)))))

/-- Where no layout is left, none is read. -/
theorem spacing (gap : Reader Value Unit) : LexicalRule (readSpacing gap) := by
  have hmiss {w : List Char} (hw : Settled w) (f : Frame Value) (u : Unit) :
      readPiece gap w f u = .miss f u := by
    obtain ⟨hspace, hline, hcomment⟩ := (settled_iff w).1 hw
    refine choice_right (oneChar_miss (fun c hc => ?_) f u) (choice_right
      (seq_miss (literal_miss hline f u)) (seq_miss (literal_miss hcomment f u)))
    rw [hc] at hspace
    exact hspace
  refine .activation (fun w w' f u h => ?_) _ _
  rw [plus_miss (hmiss h.left f u), plus_miss (hmiss h.right f u)]
  exact .miss f u

theorem condition (h : LexicalRules gap call) : Lexical (readCondition gap call) :=
  .spaced h.crosses (.spaced h.crosses (.expect (.char (longest_punctuation (by decide))))
    (.expect (h.calling _))) (.expect (.char (longest_punctuation (by decide))))

theorem statement (h : LexicalRules gap call) : LexicalRule (readStatement call) := by
  have hkind (rule : String) : Lexical (.nonterminal (call rule) "statement" []) :=
    .nonterminal (h.lexical rule) "statement"
  exact .activation (.action textless_passStatement (.choice (hkind _) (.choice (hkind _)
    (.choice (hkind _) (.choice (hkind _) (.choice (hkind _) (hkind _))))))) _ _

theorem compound (h : LexicalRules gap call) : LexicalRule (readCompound gap call) := by
  have hpush : (action addStatement (Cpp.calling call "Statement")).Reads 1 :=
    (Reads.nonterminal (h.reads _) _ _).action _
  exact .activation (.spaced h.crosses
    (.action (textless_setStatement _) (.char (longest_punctuation (by decide))))
    (.spaced h.crosses (.star h.crosses (.action textless_addStatement (h.calling _)) hpush)
      (.expect (.char (longest_punctuation (by decide)))))) _ _

theorem ifThen (h : LexicalRules gap call) : LexicalRule (readIf gap call) := by
  refine .activation (.spaced h.crosses (.action (textless_setConditional .ifThen) ?_)
    (.optional (.action textless_addElse ?_))) _ _
  · exact .spaced h.crosses (.keyword (by decide))
      (.spaced h.crosses h.condition (.expect (h.calling _)))
  · exact .spaced h.crosses (.keyword (by decide)) (.expect (h.calling _))

theorem loop (h : LexicalRules gap call) : LexicalRule (readWhile gap call) :=
  .activation (.action (textless_setConditional .loop) (.spaced h.crosses (.keyword (by decide))
    (.spaced h.crosses h.condition (.expect (h.calling _))))) _ _

theorem ret (h : LexicalRules gap call) : LexicalRule (readReturn gap call) :=
  .activation (.action textless_setReturn (.spaced h.crosses (.keyword (by decide))
    (.spaced h.crosses (h.calling _).optional
      (.expect (.char (longest_punctuation (by decide))))))) _ _

theorem empty : LexicalRule readEmpty :=
  .activation (.action (textless_setStatement _) (.char (longest_punctuation (by decide)))) _ _

theorem expressionStatement (h : LexicalRules gap call) :
    LexicalRule (readExpressionStatement gap call) :=
  .activation (.action textless_setExpressionStatement (.spaced h.crosses (h.calling _)
    (.expect (.char (longest_punctuation (by decide)))))) _ _

theorem readRule (h : LexicalRules gap call) (rule : String) :
    LexicalRule (readRule gap call rule) := by
  unfold Cpp.readRule
  split
  · exact .activation (.action (textless_passOn _) (h.calling _)) _ _
  · exact h.level _ (by decide)
  · exact h.level _ (by decide)
  · exact h.level _ (by decide)
  · exact h.level _ (by decide)
  · exact h.level _ (by decide)
  · exact h.level _ (by decide)
  · exact h.unary
  · exact h.primary
  · exact .number
  · exact .name
  · exact spacing gap
  · exact h.statement
  · exact h.compound
  · exact h.ifThen
  · exact h.loop
  · exact h.ret
  · exact empty
  · exact h.expressionStatement
  · exact fun _ _ _ u _ => .stop _ _ u u

end LexicalRules

end

/-! ### Rejected texts -/

/-- The reader does not hit at this text. -/
def Rejects (w : List Char) (x : Reader Value Unit) : Prop :=
  ∀ f u rest f' u', x w f u ≠ .hit rest f' u'

namespace Rejects

variable {w : List Char} {x y : Reader Value Unit}

theorem seq (hx : Rejects w x) (y : Reader Value Unit) : Rejects w (x.seq y) := by
  intro f u rest f' u' h
  obtain ⟨mid, a, v, hhit, -⟩ := Outcome.andThen_eq_hit.1 h
  exact hx _ _ _ _ _ hhit

theorem choice (hx : Rejects w x) (hy : Rejects w y) : Rejects w (x.choice y) := by
  intro f u rest f' u' h
  rcases Outcome.orElse_eq_hit.1 h with hhit | ⟨m, v, -, hhit⟩
  · exact hx _ _ _ _ _ hhit
  · exact hy _ _ _ _ _ hhit

theorem action (run : ActionContext Value Unit → ActionContext Value Unit) (hx : Rejects w x) :
    Rejects w (action run x) := by
  intro f u rest f' u' h
  obtain ⟨mid, a, v, hhit, -⟩ := Outcome.andThen_eq_hit.1 h
  exact hx _ _ _ _ _ hhit

theorem nonterminal {call : Callee Value Unit}
    (hcall : ∀ args u rest v u', call args w u ≠ .hit rest v u') (instanceName : String) :
    Rejects w (.nonterminal call instanceName []) := by
  intro f u rest f' u' h
  obtain ⟨v, hhit, -⟩ := Outcome.map_eq_hit.1 h
  exact hcall _ _ _ _ _ hhit

theorem oneChar {c d : Char} (h : (d == c) = false) (w : List Char) :
    Rejects (d :: w) (oneChar (· == c)) := by
  intro f u rest f' u' hhit
  rw [oneChar_cons, h] at hhit
  cases hhit

theorem activation (hx : Rejects w x) (hasValue : Bool) (args : List Value) (u : Unit)
    (rest : List Char) (v : Option Value) (u' : Unit) :
    activation [] [] hasValue x args w u ≠ .hit rest v u' := by
  intro h
  unfold Peg.activation at h
  split at h
  · next hhit => exact hx _ _ _ _ _ hhit
  · cases h
  · cases h

end Rejects

/-- No operand begins with an equals sign. -/
theorem readRule_equals {gap : Reader Value Unit} {call : Rules} (h : LexicalRules gap call) :
    ∀ rule ∈ ["Unary", "Primary", "Integer", "Identifier"], ∀ args w u rest v u',
      readRule gap call rule args ('=' :: w) u ≠ .hit rest v u' := by
  intro rule hrule args w u rest v u'
  have hcalling {rule : String} (hrule : rule ∈ ["Unary", "Primary", "Integer", "Identifier"]) :
      Rejects ('=' :: w) (calling call rule) :=
    .nonterminal (fun args => h.equals rule hrule args w) rule
  simp only [List.mem_cons, List.not_mem_nil, or_false] at hrule
  rcases hrule with rfl | rfl | rfl | rfl
  · have hsigned {c : Char} (hc : ('=' == c) = false) (op : UnaryOp) :
        Rejects ('=' :: w) (readSigned gap call c op) := ((Rejects.oneChar hc w).seq _).action _
    exact ((hsigned rfl .negate).choice ((hsigned rfl .not).choice
      ((hcalling (by simp)).action _))).activation _ args u rest v u'
  · have hparenthesis : Rejects ('=' :: w) (spaced gap (oneChar (· == '('))
        (spaced gap (demanding call "Expression") (demandingChar ')'))) :=
      (Rejects.oneChar rfl w).seq _
    exact (((hcalling (by simp)).action _).choice (((hcalling (by simp)).action _).choice
      (hparenthesis.action _))).activation _ args u rest v u'
  · show readNumber args ('=' :: w) u ≠ _
    rw [readNumber_eq]
    exact fun h => by cases h
  · show readName args ('=' :: w) u ≠ _
    have hstart : isIdStart '=' = false := by decide
    rw [readName_eq, if_neg fun h => Bool.eq_false_iff.1 hstart h.1]
    exact fun h => by cases h

/-! ### Whole texts -/

/-- How far a rule is from the single lexemes: while nothing has been read, it calls nearer ones. -/
def rank : String → Nat
  | "Integer" | "Identifier" => 1
  | "Primary" => 2
  | "Unary" => 3
  | "Multiplicative" => 4
  | "Additive" => 5
  | "Relational" => 6
  | "Equality" => 7
  | "LogicalAnd" => 8
  | "LogicalOr" => 9
  | "Expression" => 10
  | "CompoundStatement" | "IfStatement" | "WhileStatement" | "ReturnStatement" | "EmptyStatement"
  | "ExpressionStatement" => 11
  | "Statement" => 12
  | _ => 0

theorem ranked_allRules : Ranked allRules (some "Spacing") (fun _ => 1) rank 13 where
  least := by decide
  bounded name := by
    unfold rank
    split <;> decide
  headed := by decide

theorem reader_reads (levels : Nat) (skips : Bool) (rule : String) :
    (reader levels skips rule).Reads 1 := ranked_allRules.callReads levels skips rule

theorem gap_reads (levels : Nat) (skips : Bool) : (gap levels skips).Reads 0 := by
  refine .gap (fun skips rule args w u rest v u' h => ?_) (some "Spacing") skips
  exact Nat.le_of_succ_le (reader_reads levels skips rule args w u rest v u' h)

/-- However many activations may be nested, all rules read texts with the same lexemes alike. -/
theorem lexicalRules (levels : Nat) : LexicalRules (gap levels true) (reader levels true) := by
  induction levels with
  | zero =>
      exact ⟨crosses_gap 0, gap_reads 0 true, fun _ _ _ _ u _ => .stop .tooDeep .tooDeep u u,
        reader_reads 0 true, fun _ _ _ _ _ _ _ _ h => by cases h⟩
  | succ levels ih =>
      refine ⟨crosses_gap _, gap_reads _ true, fun rule => ?_, reader_reads _ true,
        fun rule hrule => ?_⟩
      · rw [reader_succ]
        exact ih.readRule rule
      · rw [reader_succ]
        exact readRule_equals ih rule hrule

/-- Where enough activations may be nested it makes no difference how many. -/
theorem reader_stable {levels levels' n : Nat} (hlevels : 13 * (n + 1) ≤ levels)
    (hlevels' : 13 * (n + 1) ≤ levels') (skips : Bool) (rule : String) (args : List Value)
    (w : List Char) (u : Unit) (hw : w.length ≤ n) :
    reader levels skips rule args w u = reader levels' skips rule args w u := by
  have hrank := ranked_allRules.bounded rule
  exact ranked_allRules.declReader_stable (by omega) (by omega) skips args w u hw

theorem readWhole_stable {levels levels' : Nat} {text : List Char}
    (hlevels : 13 * (text.length + 1) ≤ levels) (hlevels' : 13 * (text.length + 1) ≤ levels')
    (start : String) : readWhole levels start text = readWhole levels' start text := by
  have hgap (w : List Char) (f : Frame Value) (u : Unit) (hw : w.length ≤ text.length) :
      gap levels true w f u = gap levels' true w f u := by
    have hspacing : AgreeBelow (text.length + 1) (test (reader levels false "Spacing"))
        (test (reader levels' false "Spacing")) :=
      .test fun args w u hw => reader_stable hlevels hlevels' false "Spacing" args w u
        (Nat.le_of_lt_succ hw)
    exact hspacing.optional w f u (Nat.lt_succ_of_le hw)
  have hstart (w : List Char) (u : Unit) (hw : w.length ≤ text.length) :=
    reader_stable hlevels hlevels' true start [] w u hw
  unfold readWhole Reader.whole
  rw [← hgap text _ _ (Nat.le_refl _)]
  cases hlead : gap levels true text (.ofLocals []) () with
  | hit rest f u =>
      have hrest : rest.length ≤ text.length := gap_reads _ _ _ _ _ _ _ _ hlead
      simp only [Outcome.map_hit, Outcome.andThen_hit]
      rw [← hstart rest u hrest]
      cases hcall : reader levels true start [] rest u with
      | hit rest' v u' =>
          have hrest' := reader_reads _ _ _ _ _ _ _ _ _ hcall
          simp only [Outcome.andThen_hit]
          rw [hgap rest' _ _ (by omega)]
      | _ => rfl
  | _ => rfl

/-- What is picked from a whole text depends on its lexemes alone. -/
theorem picked_readWhole (levels : Nat) (start : String) (pick : Value → Option α)
    {w w' : List Char} (h : lexemes w = lexemes w') :
    picked pick (readWhole levels start w) = picked pick (readWhole levels start w') := by
  have hrules := lexicalRules levels
  unfold readWhole Reader.whole
  rcases hrules.crosses with hstops | hcrosses
  · obtain ⟨why, v, hw⟩ := hstops w (.ofLocals []) ()
    obtain ⟨why', v', hw'⟩ := hstops w' (.ofLocals []) ()
    rw [hw, hw']
    rfl
  rw [hcrosses, hcrosses]
  by_cases hcomment : "/*".toList <+: skipLayout w
  · rw [if_pos hcomment, if_pos ((comment_iff_of_lexemes_eq h).1 hcomment)]
  rw [if_neg hcomment, if_neg (mt (comment_iff_of_lexemes_eq h).2 hcomment)]
  simp only [Outcome.map_hit, Outcome.andThen_hit]
  have hcall := hrules.lexical start [] _ _ () (alike_skipLayout h hcomment)
  generalize reader levels true start [] (skipLayout w) () = o at hcall ⊢
  generalize reader levels true start [] (skipLayout w') () = o' at hcall ⊢
  cases hcall with
  | hit hrest v u =>
      simp only [Outcome.andThen_hit, hcrosses]
      rename_i rest rest'
      by_cases hopen : "/*".toList <+: skipLayout rest
      · rw [if_pos hopen, if_pos ((comment_iff_of_lexemes_eq hrest).1 hopen)]
      · rw [if_neg hopen, if_neg (mt (comment_iff_of_lexemes_eq hrest).2 hopen)]
        have hnil := (alike_skipLayout hrest hopen).eq_nil
        cases hs : skipLayout rest with
        | nil => rw [hnil.1 hs]
        | cons c s =>
            obtain ⟨c', s', hs'⟩ := List.exists_cons_of_ne_nil (mt hnil.2 (by simp [hs]))
            rw [hs']
            rfl
  | miss m u => rfl
  | stop why why' u u' => rfl

/-- The same for as many levels as each of the texts is given. -/
theorem picked_levels (config : Config) (start : String) (pick : Value → Option α) {w w' : List Char}
    (h : lexemes w = lexemes w') :
    picked pick (readWhole (levels config w.length) start w) =
      picked pick (readWhole (levels config w'.length) start w') := by
  by_cases hlimit : config.maxDepth = 0
  · have henough (w : List Char) : 13 * (w.length + 1) ≤ levels config w.length := by
      rw [levels, if_pos hlimit]
      omega
    let common := levels config w.length + levels config w'.length
    calc picked pick (readWhole (levels config w.length) start w)
        = picked pick (readWhole common start w) :=
          congrArg _ (readWhole_stable (henough w) (Nat.le_add_right_of_le (henough w)) start)
      _ = picked pick (readWhole common start w') := picked_readWhole common start pick h
      _ = picked pick (readWhole (levels config w'.length) start w') :=
          congrArg _ (readWhole_stable (Nat.le_add_left_of_le (henough w')) (henough w') start)
  · have hlevels (length : Nat) : levels config length = config.maxDepth := if_neg hlimit
    rw [hlevels, hlevels]
    exact picked_readWhole config.maxDepth start pick h

/-- Statements and expressions are parsed from the lexemes of the input: inputs with the same lexemes
are both accepted, with the same tree, or none of them is. -/
theorem parse_eq_of_lexemes_eq {config : Config} (hunlimited : config.maxInputLength = 0)
    {input input' : String} (h : lexemes input.toList = lexemes input'.toList)
    (fileName fileName' : String) :
    (parseStatement config input { fileName }).outcome.toOption =
        (parseStatement config input' { fileName := fileName' }).outcome.toOption ∧
      (parseExpression config input { fileName }).outcome.toOption =
        (parseExpression config input' { fileName := fileName' }).outcome.toOption := by
  rw [parseStatement_denotes config input fileName (.inl hunlimited),
    parseStatement_denotes config input' fileName' (.inl hunlimited),
    parseExpression_denotes config input fileName (.inl hunlimited),
    parseExpression_denotes config input' fileName' (.inl hunlimited)]
  exact ⟨picked_levels config _ _ h, picked_levels config _ _ h⟩

/-- Blanks and comments between the lexemes of a statement. -/
theorem parse_eq_of_lexemes_eq_comments :
    let dense := "\x7bx<=1;\x7d"
    let loose := "\x7b x /* y */ <= //\n1; \x7d"
    ({} : Config).maxInputLength = 0 ∧ lexemes dense.toList = lexemes loose.toList ∧
      (parseStatement {} dense {}).outcome.toOption =
        (parseStatement {} loose {}).outcome.toOption ∧
      (parseExpression {} dense {}).outcome.toOption =
        (parseExpression {} loose {}).outcome.toOption := by
  intro dense loose
  have hlexemes : lexemes dense.toList = lexemes loose.toList := by decide +kernel
  exact ⟨rfl, hlexemes, parse_eq_of_lexemes_eq rfl hlexemes "" ""⟩

end AttrGrammar.Cpp

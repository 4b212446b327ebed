import AttrGrammar.Proofs.CppLayout
import AttrGrammar.Proofs.CppWriting

/-! Expressions are read back as they were written. A written operation stands in parentheses; inside
them its operands are read by the tier of its operator, all tighter tiers only pass the operands on,
and all looser ones the result. Each tier stops at the end of its operand, or at layout behind it,
before a lexeme that is none of its operators. -/

namespace AttrGrammar.Cpp
open Text Peg
open Reader Context

/-! ### Tiers of operators -/

/-- A tier of binary operators: its rule and what joins its operands. -/
structure Tier where
  name : String
  operators : List BinaryOp

/-- All tiers, the loosest first; the operands of each are read by the next one. -/
def tiers : List Tier :=
  [⟨"LogicalOr", [.logicalOr]⟩, ⟨"LogicalAnd", [.logicalAnd]⟩, ⟨"Equality", [.equal, .notEqual]⟩,
   ⟨"Relational", [.lessEqual, .greaterEqual, .less, .greater]⟩,
   ⟨"Additive", [.add, .subtract]⟩, ⟨"Multiplicative", [.multiply, .divide, .remainder]⟩]

/-- The rule that reads what the tiers join: that of the first one, or that of single operands. -/
def entry : List Tier → String
  | [] => "Unary"
  | t :: _ => t.name

theorem readRule_tier (gap : Reader Value Unit) (call : Rules) {t : Tier} {back : List Tier}
    (h : t :: back <:+ tiers) :
    readRule gap call t.name = readLevel gap call (entry back) t.operators := by
  simp only [tiers, List.suffix_cons_iff, List.cons.injEq, List.suffix_nil, reduceCtorEq,
    or_false] at h
  rcases h with ⟨rfl, rfl⟩ | ⟨rfl, rfl⟩ | ⟨rfl, rfl⟩ | ⟨rfl, rfl⟩ | ⟨rfl, rfl⟩ | ⟨rfl, rfl⟩ <;> rfl

theorem picks_tier : ∀ t ∈ tiers, ∀ l ∈ marks, l ≠ "/*".toList → Picks t.operators l := by
  decide

/-- Each operator belongs to a tier, and to one alone. -/
theorem tiers_pairwise : tiers.Pairwise fun t t' =>
    ∀ op ∈ t.operators, ∀ op' ∈ t'.operators, op'.symbol.toList ≠ op.symbol.toList := by
  decide

theorem exists_tier (op : BinaryOp) : ∃ t ∈ tiers, op ∈ t.operators := by
  cases op <;> decide

/-- Neither operator of the tier comes first in the text. -/
def Tier.Passes (t : Tier) (w : List Char) : Prop :=
  ∀ op ∈ t.operators, op.symbol.toList ≠ firstLexeme w

/-! ### Written operators -/

theorem firstLexeme_symbol (op : BinaryOp) (w : List Char) :
    firstLexeme (op.symbol.toList ++ ' ' :: w) = op.symbol.toList := by
  cases op <;> rfl

theorem not_prefix_symbol {c : Char} (hc : c ≠ ' ') (op : BinaryOp) (w : List Char) :
    ¬ ['/', c] <+: op.symbol.toList ++ ' ' :: w := by
  cases op <;> simp [BinaryOp.symbol, hc]

theorem settled_symbol (op : BinaryOp) (w : List Char) :
    Settled (op.symbol.toList ++ ' ' :: w) := by
  refine (settled_iff _).2 ⟨?_, not_prefix_symbol (by decide) op w,
    not_prefix_symbol (by decide) op w⟩
  cases op <;> rfl

theorem settled_close (rest : List Char) : Settled (')' :: rest) :=
  (settled_iff _).2 ⟨rfl, by simp, by simp⟩

theorem Tier.passes_close (t : Tier) (rest : List Char) : t.Passes (')' :: rest) := by
  have hlongest : Longest [')'] := longest_punctuation (by decide)
  have hfirst : firstLexeme (')' :: rest) = [')'] :=
    (mark_prefix_iff hlongest.1 hlongest.first_eq).1 ⟨rest, rfl⟩
  intro op _
  rw [hfirst]
  cases op <;> decide

theorem Tier.passes_nil (t : Tier) : t.Passes [] := by
  intro op _
  cases op <;> decide

theorem symbol_injective {op op' : BinaryOp} (h : op.symbol.toList = op'.symbol.toList) :
    op = op' := by
  have hfound (op : BinaryOp) : BinaryOp.ofSymbol? op.symbol = some op := by
    cases op <;> decide
  have hsome := congrArg BinaryOp.ofSymbol? (String.toList_injective h)
  rw [hfound, hfound] at hsome
  exact Option.some.inj hsome

section

variable {t : Tier} {op : BinaryOp} {w next : List Char}

theorem readOperator_hit (ht : t ∈ tiers) (hop : op ∈ t.operators) (w : List Char)
    (f : Frame Value) (u : Unit) :
    readOperator t.operators (op.symbol.toList ++ ' ' :: w) f u =
      .hit (' ' :: w) (f.setLocal "op" (.operator op)).2 u := by
  have hfind : t.operators.find? (·.symbol.toList == op.symbol.toList) = some op := by
    have hsome : (t.operators.find? (·.symbol.toList == op.symbol.toList)).isSome :=
      List.find?_isSome.2 ⟨op, hop, by simp⟩
    obtain ⟨op', hop'⟩ := Option.isSome_iff_exists.1 hsome
    have hsymbol : op'.symbol.toList = op.symbol.toList := by simpa using List.find?_some hop'
    rw [hop', symbol_injective hsymbol]
  rw [readOperator_eq (picks_of_marks (picks_tier t ht) (settled_symbol op w)), firstLexeme_symbol,
    hfind, behindLexeme_eq (firstLexeme_symbol op w)]

theorem readOperator_miss (ht : t ∈ tiers) (hnext : Settled next) (hpasses : t.Passes next)
    (f : Frame Value) (u : Unit) : readOperator t.operators next f u = .miss f u := by
  have hnone : t.operators.find? (·.symbol.toList == firstLexeme next) = none :=
    List.find?_eq_none.2 fun op hop => by simpa using hpasses op hop
  rw [readOperator_eq (picks_of_marks (picks_tier t ht) hnext), hnone]

end

/-! ### Reading operands -/

/-- Calling the rule reads an expression, and leaves what follows with at most layout before it. -/
def ReadsTo (levels : Nat) (rule : String) (w next : List Char) (e : Expression) : Prop :=
  ∃ mid, skipLayout mid = next ∧
    reader levels true rule [] w () = .hit mid (some (.expression e)) ()

section

variable {levels : Nat} {rule : String} {w rest next : List Char} {e l r : Expression}

theorem gap_hit (hlevels : 1 ≤ levels) {mid : List Char} (hmid : skipLayout mid = next)
    (hnext : Settled next) (f : Frame Value) (u : Unit) :
    gap levels true mid f u = .hit next f u := by
  obtain ⟨levels, rfl⟩ := Nat.exists_eq_add_of_le' hlevels
  rw [gap_eq, hmid, if_neg hnext.comment]

/-- A called rule left an expression. -/
theorem takeExpression_of {f : Frame Value} (hf : f.instances = []) (rule : String)
    (e : Expression) (text : List Char) :
    takeExpression rule (.of (f.setInstance rule (.expression e)) text ()) =
      (some e, .of f text ()) := by
  unfold takeExpression ActionContext.takeInstance ActionContext.of
  dsimp only
  rw [Frame.takeInstance_setInstance hf]
  rfl

theorem passOn_of {f : Frame Value} (hf : f.instances = []) (rule : String) (e : Expression)
    (text : List Char) :
    passOn rule (.of (f.setInstance rule (.expression e)) text ()) =
      .of (f.setValue (.expression e)) text () := by
  rw [passOn, takeExpression_of hf]
  rfl

/-- What a call returns is returned. -/
theorem passOn_hit (h : reader levels true rule [] w () = .hit rest (some (.expression e)) ())
    {f : Frame Value} (hf : f.instances = []) :
    action (passOn rule) (calling (reader levels true) rule) w f () =
      .hit rest (f.setValue (.expression e)) () :=
  action_any (nonterminal_hit rfl h) (passOn_of hf rule e)

/-- A tier passes on what the next one reads, if none of its operators follows. -/
theorem ReadsTo.pass {t : Tier} {back : List Tier} (hsuffix : t :: back <:+ tiers)
    (hlevels : 1 ≤ levels) (h : ReadsTo levels (entry back) w next e) (hnext : Settled next)
    (hpasses : t.Passes next) : ReadsTo (levels + 1) t.name w next e := by
  obtain ⟨mid, hmid, hread⟩ := h
  refine ⟨next, hnext.skipLayout_eq, ?_⟩
  rw [reader_succ, readRule_tier _ _ hsuffix]
  let rounds := star (gap levels true)
    (readOperation (gap levels true) (reader levels true) (entry back) t.operators)
  have hoperator := readOperator_miss (hsuffix.subset List.mem_cons_self) hnext hpasses
  have htree (f : Frame Value) (hf : f.instances = []) :=
    calc spaced (gap levels true)
          (action (passOn (entry back)) (calling (reader levels true) (entry back))) rounds w f ()
        = (gap levels true).seq rounds mid (f.setValue (.expression e)) () :=
          seq_hit (passOn_hit hread hf)
      _ = rounds next (f.setValue (.expression e)) () := seq_hit (gap_hit hlevels hmid hnext _ _)
      _ = .hit next (f.setValue (.expression e)) () :=
          star_miss (action_miss (seq_miss (hoperator _ _)))
  exact activation_value (htree _ rfl) rfl

/-- So do several tiers. -/
theorem ReadsTo.passAll {front back : List Tier} (hsuffix : front ++ back <:+ tiers)
    (hlevels : 1 ≤ levels) (h : ReadsTo levels (entry back) w next e) (hnext : Settled next)
    (hpasses : ∀ t ∈ front, t.Passes next) :
    ReadsTo (levels + front.length) (entry (front ++ back)) w next e := by
  induction front with
  | nil => exact h
  | cons t front ih =>
      obtain ⟨ht, hfront⟩ := List.forall_mem_cons.1 hpasses
      have hread := ih ((List.suffix_cons t _).trans hsuffix) hfront
      exact hread.pass hsuffix (Nat.le_add_right_of_le hlevels) hnext ht

/-- A tier joins two operands of the next one that an operator of its own stands between. -/
theorem ReadsTo.join {t : Tier} {back : List Tier} (hsuffix : t :: back <:+ tiers) {op : BinaryOp}
    (hop : op ∈ t.operators) (hlevels : 1 ≤ levels) {v : List Char}
    (hl : ReadsTo levels (entry back) w (op.symbol.toList ++ ' ' :: v) l) (hv : Settled v)
    (hr : ReadsTo levels (entry back) v next r) (hnext : Settled next) (hpasses : t.Passes next) :
    ReadsTo (levels + 1) t.name w next (.binary op l r) := by
  obtain ⟨mid, hmid, hleft⟩ := hl
  obtain ⟨last, hlast, hright⟩ := hr
  have ht : t ∈ tiers := hsuffix.subset List.mem_cons_self
  refine ⟨last, hlast, ?_⟩
  rw [reader_succ, readRule_tier _ _ hsuffix]
  let operation :=
    readOperation (gap levels true) (reader levels true) (entry back) t.operators
  let f : Frame Value := (Frame.ofLocals ["op"]).bindInherited [] []
  have hround : operation (op.symbol.toList ++ ' ' :: v) (f.setValue (.expression l)) () =
      .hit last (f.setValue (.expression (.binary op l r))) () := by
    have hblank : skipLayout (' ' :: v) = v := (skipLayout_some rfl).trans hv.skipLayout_eq
    refine action_any ((seq_hit (readOperator_hit ht hop v _ _)).trans
      ((seq_hit (gap_hit hlevels hblank hv _ _)).trans
        (expect_hit (nonterminal_hit rfl hright)))) fun text => ?_
    show combine (entry back) (.of (Frame.setInstance _ (entry back) (.expression r)) text ()) = _
    rw [combine, takeExpression_of rfl]
    rfl
  have hlt : last.length < (op.symbol.toList ++ ' ' :: v).length := by
    have hreads : last.length < v.length := reader_reads _ _ _ _ _ _ _ _ _ hright
    rw [List.length_append, List.length_cons]
    omega
  have hend (f : Frame Value) : (gap levels true).seq operation.progress last f () = .miss f () :=
    (seq_hit (gap_hit hlevels hlast hnext f ())).trans
      (progress_miss (action_miss (seq_miss (readOperator_miss ht hnext hpasses f ()))))
  have htree :=
    calc spaced (gap levels true)
          (action (passOn (entry back)) (calling (reader levels true) (entry back)))
          (star (gap levels true) operation) w f ()
        = (gap levels true).seq (star (gap levels true) operation) mid
            (f.setValue (.expression l)) () := seq_hit (passOn_hit hleft rfl)
      _ = star (gap levels true) operation (op.symbol.toList ++ ' ' :: v)
            (f.setValue (.expression l)) () :=
          seq_hit (gap_hit hlevels hmid (settled_symbol op v) _ _)
      _ = .hit last (f.setValue (.expression (.binary op l r))) () := star_once hround hlt (hend _)
  exact activation_value htree rfl

theorem ReadsTo.expression (h : ReadsTo levels "LogicalOr" w next e) :
    ReadsTo (levels + 1) "Expression" w next e := by
  obtain ⟨mid, hmid, hread⟩ := h
  refine ⟨mid, hmid, ?_⟩
  rw [reader_succ]
  exact activation_value (passOn_hit hread rfl) rfl

/-- A single operand, behind which no operator follows, is an expression. -/
theorem ReadsTo.single (hlevels : 1 ≤ levels) (h : ReadsTo levels "Unary" w next e)
    (hnext : Settled next) (hpasses : ∀ t ∈ tiers, t.Passes next) :
    ReadsTo (levels + 7) "Expression" w next e :=
  have hall : tiers ++ [] <:+ tiers := ⟨[], List.append_nil tiers⟩
  (h.passAll hall hlevels hnext hpasses).expression

/-- Two operands and an operator between them are an expression. -/
theorem ReadsTo.operation (op : BinaryOp) (hlevels : 1 ≤ levels) {v : List Char}
    (hl : ReadsTo levels "Unary" w (op.symbol.toList ++ ' ' :: v) l) (hv : Settled v)
    (hr : ReadsTo levels "Unary" v next r) (hnext : Settled next)
    (hpasses : ∀ t ∈ tiers, t.Passes next) :
    ReadsTo (levels + 7) "Expression" w next (.binary op l r) := by
  obtain ⟨t, ht, hop⟩ := exists_tier op
  obtain ⟨front, back, hsplit⟩ := List.append_of_mem ht
  have hpairwise := tiers_pairwise
  rw [hsplit] at hpairwise hpasses
  have hother : ∀ t' ∈ back, t'.Passes (op.symbol.toList ++ ' ' :: v) := by
    intro t' ht' op' hop'
    rw [firstLexeme_symbol]
    exact (List.pairwise_cons.1 (List.pairwise_append.1 hpairwise).2.1).1 t' ht' op hop op' hop'
  have hback : back ++ [] <:+ tiers := ⟨front ++ [t], by simp [hsplit]⟩
  have hleft := hl.passAll hback hlevels (settled_symbol op v) hother
  have hright := hr.passAll hback hlevels hnext
    fun t' ht' => hpasses t' (by simp [ht'])
  rw [List.append_nil] at hleft hright
  have hjoined := hleft.join ⟨front, hsplit.symm⟩ hop (Nat.le_add_right_of_le hlevels) hv hright
    hnext (hpasses t (by simp))
  have hall : front ++ t :: back <:+ tiers := ⟨[], hsplit.symm⟩
  have hwhole := hjoined.passAll hall (Nat.le_add_left_of_le (Nat.le_refl 1)) hnext
    fun t' ht' => hpasses t' (by simp [ht'])
  rw [← hsplit] at hwhole
  have hcount : levels + back.length + 1 + front.length = levels + 6 := by
    have hlength := congrArg List.length hsplit
    simp only [tiers, List.length_append, List.length_cons, List.length_nil] at hlength
    omega
  rw [hcount] at hwhole
  exact hwhole.expression

/-! ### Reading what was written -/

theorem reader_integer (hlevels : 1 ≤ levels) :
    reader levels true "Integer" = readNumber := by
  obtain ⟨levels, rfl⟩ := Nat.exists_eq_add_of_le' hlevels
  exact reader_succ levels true "Integer"

theorem reader_identifier (hlevels : 1 ≤ levels) :
    reader levels true "Identifier" = readName := by
  obtain ⟨levels, rfl⟩ := Nat.exists_eq_add_of_le' hlevels
  exact reader_succ levels true "Identifier"

/-- Where no number stands, none is read. -/
theorem number_miss (hlevels : 1 ≤ levels) (hw : Ends Char.isDigit w) (f : Frame Value) :
    action (passOn "Integer") (calling (reader levels true) "Integer") w f () = .miss f () := by
  refine action_miss (nonterminal_miss rfl ?_)
  rw [reader_integer hlevels, readNumber_eq, if_neg (Bool.eq_false_iff.1 hw.any_head?)]

theorem name_miss (hlevels : 1 ≤ levels) (hw : Ends isIdStart w) (f : Frame Value) :
    action (passOn "Identifier") (calling (reader levels true) "Identifier") w f () =
      .miss f () := by
  refine action_miss (nonterminal_miss rfl ?_)
  rw [reader_identifier hlevels, readName_eq, if_neg fun h => Bool.eq_false_iff.1 hw.any_head? h.1]

theorem primary_number (hlevels : 1 ≤ levels) {digits : List Char} (hne : digits ≠ [])
    (hdigits : ∀ c ∈ digits, c.isDigit) (hrange : numeral 10 digits ≤ maxInteger)
    (hrest : Ends isIdCont rest) :
    reader (levels + 1) true "Primary" [] (digits ++ rest) () =
      .hit rest (some (.expression (.integer (numeral 10 digits)))) () := by
  have hfirst : firstLexeme (digits ++ rest) = digits :=
    firstLexeme_number_append hne hdigits hrest
  have hhead : digits.head?.any Char.isDigit := any_head?_of_forall hne hdigits
  have hread : reader levels true "Integer" [] (digits ++ rest) () =
      .hit rest (some (.expression (.integer (numeral 10 digits)))) () := by
    rw [reader_integer hlevels, readNumber_eq, if_pos (any_head?_append hhead), hfirst,
      if_pos hrange, behindLexeme_eq hfirst]
  rw [reader_succ]
  exact activation_value (choice_hit (passOn_hit hread rfl)) rfl

theorem primary_integer (hlevels : 1 ≤ levels) {n : Nat} (hn : n ≤ maxInteger)
    (hrest : Ends isIdCont rest) :
    reader (levels + 1) true "Primary" [] (Nat.toDigits 10 n ++ rest) () =
      .hit rest (some (.expression (.integer n))) () := by
  have hread := primary_number hlevels (Nat.toDigits_ne_nil (b := 10) (n := n)) (isDigit_toDigits n)
    (by rwa [numeral_toDigits (by decide) (by decide)]) hrest
  rwa [numeral_toDigits (by decide) (by decide)] at hread

theorem primary_identifier (hlevels : 1 ≤ levels) {name : String} (hname : IsName name)
    (hrest : Ends isIdCont rest) :
    reader (levels + 1) true "Primary" [] (name.toList ++ rest) () =
      .hit rest (some (.expression (.identifier name))) () := by
  obtain ⟨hstart, hcont, hreserved⟩ := hname
  have hfirst : firstLexeme (name.toList ++ rest) = name.toList :=
    firstLexeme_word_append hstart (List.all_eq_true.1 hcont) hrest
  have hread : reader levels true "Identifier" [] (name.toList ++ rest) () =
      .hit rest (some (.expression (.identifier name))) () := by
    rw [reader_identifier hlevels, readName_eq, hfirst, String.ofList_toList,
      if_pos ⟨any_head?_append hstart, hreserved⟩, behindLexeme_eq hfirst]
  have hnumber : Ends Char.isDigit (name.toList ++ rest) :=
    ends_of_any_head? (fun c hc => Bool.eq_false_iff.2 fun hdigit => by
      simp [isIdStart_of_isDigit hdigit] at hc) (any_head?_append hstart)
  rw [reader_succ]
  exact activation_value (choice_right (number_miss hlevels hnumber _)
    (choice_hit (passOn_hit hread rfl))) rfl

/-- An expression in parentheses. -/
theorem primary_parenthesized (hlevels : 1 ≤ levels) (hw : Settled w)
    (h : ReadsTo levels "Expression" w (')' :: rest) e) :
    reader (levels + 1) true "Primary" [] ('(' :: w) () = .hit rest (some (.expression e)) () := by
  obtain ⟨mid, hmid, hread⟩ := h
  have hparenthesis (f : Frame Value) :=
    calc spaced (gap levels true) (oneChar (· == '(')) (spaced (gap levels true)
          (demanding (reader levels true) "Expression") (demandingChar ')')) ('(' :: w) f ()
        = (gap levels true).seq (spaced (gap levels true)
            (demanding (reader levels true) "Expression") (demandingChar ')')) w f () :=
          seq_hit (char_hit '(' w f ())
      _ = spaced (gap levels true) (demanding (reader levels true) "Expression")
            (demandingChar ')') w f () := seq_hit (gap_hit hlevels hw.skipLayout_eq hw f ())
      _ = (gap levels true).seq (demandingChar ')') mid
            (f.setInstance "Expression" (.expression e)) () :=
          seq_hit (expect_hit (nonterminal_hit rfl hread))
      _ = demandingChar ')' (')' :: rest) (f.setInstance "Expression" (.expression e)) () :=
          seq_hit (gap_hit hlevels hmid (settled_close rest) _ _)
      _ = .hit rest (f.setInstance "Expression" (.expression e)) () :=
          expect_hit (char_hit ')' rest _ _)
  have hnumber : Ends Char.isDigit ('(' :: w) := ends_cons rfl
  have hname : Ends isIdStart ('(' :: w) :=
    ends_mono (ends_cons (not_isIdCont (by decide))) fun _ => isIdCont_of_isIdStart
  rw [reader_succ]
  exact activation_value (choice_right (number_miss hlevels hnumber _)
    (choice_right (name_miss hlevels hname _)
      (action_any (hparenthesis _) (passOn_of rfl "Expression" e)))) rfl

/-- A single operand without a sign. -/
theorem unary_primary (hminus : Ends (· == '-') w) (hnot : Ends (· == '!') w)
    (h : reader levels true "Primary" [] w () = .hit rest (some (.expression e)) ()) :
    reader (levels + 1) true "Unary" [] w () = .hit rest (some (.expression e)) () := by
  rw [reader_succ]
  exact activation_value (choice_right (action_miss (seq_miss (oneChar_miss hminus _ _)))
    (choice_right (action_miss (seq_miss (oneChar_miss hnot _ _))) (passOn_hit h rfl))) rfl

theorem unary_word (hw : w.head?.any isIdCont)
    (h : reader levels true "Primary" [] w () = .hit rest (some (.expression e)) ()) :
    reader (levels + 1) true "Unary" [] w () = .hit rest (some (.expression e)) () := by
  have hother {c : Char} (hc : isIdCont c = false) : Ends (· == c) w :=
    ends_of_any_head? (fun d hd => beq_eq_false_iff_ne.2 fun h => by simp [← h, hd] at hc) hw
  exact unary_primary (hother (not_isIdCont (by decide))) (hother (not_isIdCont (by decide))) h

/-- An operand with a sign. -/
theorem unary_signed (op : UnaryOp) (hlevels : 1 ≤ levels) (hw : Settled w)
    (h : reader levels true "Unary" [] w () = .hit rest (some (.expression e)) ()) :
    reader (levels + 1) true "Unary" [] (op.symbol.toList ++ w) () =
      .hit rest (some (.expression (.unary op e))) () := by
  have hsigned (sign : Char) : readSigned (gap levels true) (reader levels true) sign op (sign :: w)
      ((Frame.ofLocals []).bindInherited [] []) () =
        .hit rest (((Frame.ofLocals []).bindInherited [] []).setValue (.expression (.unary op e)))
          () := by
    refine action_any ((seq_hit (char_hit sign w _ _)).trans
      ((seq_hit (gap_hit hlevels hw.skipLayout_eq hw _ _)).trans
        (expect_hit (nonterminal_hit rfl h)))) fun text => ?_
    show applyUnary op (.of (Frame.setInstance _ "Unary" (.expression e)) text ()) = _
    rw [applyUnary, takeExpression_of rfl]
    rfl
  rw [reader_succ]
  cases op with
  | negate => exact activation_value (choice_hit (hsigned '-')) rfl
  | not =>
      have hminus : Ends (· == '-') ('!' :: w) := ends_cons rfl
      exact activation_value (choice_right (action_miss (seq_miss (oneChar_miss hminus _ _)))
        (choice_hit (hsigned '!'))) rfl

end

/-- An operand is read back, whatever follows it, if that does not go on with a word. Nine activations
are enough for each character: so many are open from one operand to the operands inside it. -/
theorem reader_text {e : Expression} (he : e.Writable) {levels : Nat}
    (hlevels : 9 * e.text.length ≤ levels) {rest : List Char} (hrest : Ends isIdCont rest) :
    reader levels true "Unary" [] (e.text ++ rest) () = .hit rest (some (.expression e)) () := by
  have hlength := Expression.length_text_pos he
  induction e generalizing levels rest with
  | identifier name =>
      obtain ⟨levels, rfl⟩ := Nat.exists_eq_add_of_le' (show 3 ≤ levels by omega)
      exact unary_word (any_head?_append (any_head?_mono (fun _ => isIdCont_of_isIdStart) he.1))
        (primary_identifier (Nat.le_add_left 1 levels) he hrest)
  | integer value =>
      obtain ⟨levels, rfl⟩ := Nat.exists_eq_add_of_le' (show 3 ≤ levels by omega)
      obtain ⟨hnonneg, hmax⟩ := he
      obtain ⟨n, rfl⟩ := Int.eq_ofNat_of_zero_le hnonneg
      rw [Expression.text_integer]
      exact unary_word
        (any_head?_append (any_head?_mono (fun _ => isIdCont_of_isDigit) (head?_toDigits n)))
        (primary_integer (Nat.le_add_left 1 levels) (Int.ofNat_le.1 hmax) hrest)
  | unary op operand ih =>
      have hsymbol : op.symbol.toList.length = 1 := by cases op <;> rfl
      have hoperand := Expression.length_text_pos (e := operand) he
      rw [Expression.text_unary, List.length_append, hsymbol] at hlevels
      obtain ⟨levels, rfl⟩ := Nat.exists_eq_add_of_le' (show 1 ≤ levels by omega)
      rw [Expression.text_unary, List.append_assoc]
      exact unary_signed op (by omega) (Expression.settled_text (e := operand) he rest)
        (ih he (by omega) hrest hoperand)
  | binary op l r ihl ihr =>
      obtain ⟨hl, hr⟩ := he
      have hlengths := Expression.length_text_pos hl
      have hlengths' := Expression.length_text_pos hr
      have hcount : l.text.length + r.text.length + 1 ≤ (Expression.binary op l r).text.length := by
        rw [Expression.text_binary]
        simp only [List.length_cons, List.length_append]
        omega
      obtain ⟨levels, rfl⟩ := Nat.exists_eq_add_of_le' (show 9 ≤ levels by omega)
      have htext : (Expression.binary op l r).text ++ rest =
          '(' :: (l.text ++ ' ' :: (op.symbol.toList ++ ' ' :: (r.text ++ ')' :: rest))) := by
        simp [Expression.text_binary]
      rw [htext]
      have hleft : ReadsTo levels "Unary"
          (l.text ++ ' ' :: (op.symbol.toList ++ ' ' :: (r.text ++ ')' :: rest)))
          (op.symbol.toList ++ ' ' :: (r.text ++ ')' :: rest)) l :=
        ⟨_, (skipLayout_some rfl).trans (settled_symbol op _).skipLayout_eq,
          ihl hl (by omega) (ends_blank _) hlengths⟩
      have hright : ReadsTo levels "Unary" (r.text ++ ')' :: rest) (')' :: rest) r :=
        ⟨_, (settled_close rest).skipLayout_eq,
          ihr hr (by omega) (ends_cons (not_isIdCont (by decide))) hlengths'⟩
      have hinside := hleft.operation op (by omega) (Expression.settled_text hr _) hright
        (settled_close rest) fun t _ => t.passes_close rest
      exact unary_primary (ends_cons rfl) (ends_cons rfl) (primary_parenthesized
        (Nat.le_add_left_of_le (by decide)) (Expression.settled_text hl _) hinside)

/-- The whole text of an expression is read as the expression. -/
theorem readWhole_text {e : Expression} (he : e.Writable) {levels : Nat}
    (hlevels : 9 * e.text.length + 7 ≤ levels) :
    readWhole levels "Expression" e.text = .hit [] (some (.expression e)) () := by
  have hlength := Expression.length_text_pos he
  obtain ⟨levels, rfl⟩ := Nat.exists_eq_add_of_le' (Nat.le_of_add_left_le hlevels)
  have hsettled := Expression.settled_text he []
  have hnil : Settled [] := ⟨rfl, by simp⟩
  have hoperand : reader levels true "Unary" [] (e.text ++ []) () =
      .hit [] (some (.expression e)) () := reader_text he (by omega) fun _ h => by cases h
  rw [List.append_nil] at hsettled hoperand
  have hsingle : ReadsTo levels "Unary" e.text [] e := ⟨[], hnil.skipLayout_eq, hoperand⟩
  obtain ⟨mid, hmid, hread⟩ := hsingle.single (by omega) hnil fun t _ => t.passes_nil
  unfold readWhole Reader.whole
  rw [gap_hit (by omega) hsettled.skipLayout_eq hsettled, Outcome.map_hit, Outcome.andThen_hit, hread,
    Outcome.andThen_hit, gap_hit (by omega) hmid hnil, Outcome.map_hit]

/-- What a writable expression is written as is parsed as the expression again. -/
theorem parseExpression_render {config : Config} (hdepth : config.maxDepth = 0) {e : Expression}
    (he : e.Writable)
    (hshort : config.maxInputLength = 0 ∨ e.render.toList.length ≤ config.maxInputLength)
    (fileName : String) : (parseExpression config e.render { fileName }).outcome = .ok e := by
  have hlevels : 9 * e.text.length + 7 ≤ levels config e.text.length := by
    rw [levels, if_pos hdepth]
    omega
  have hparse : (parseExpression config e.render { fileName }).outcome.toOption = some e :=
    calc (parseExpression config e.render { fileName }).outcome.toOption
        = picked Value.expression? (readWhole (levels config e.text.length) "Expression" e.text) :=
          parseExpression_denotes config e.render fileName hshort
      _ = some e := by rw [readWhole_text he hlevels]; rfl
  generalize (parseExpression config e.render { fileName }).outcome = outcome at hparse
  cases outcome with
  | ok tree => exact congrArg Except.ok (Option.some.inj hparse)
  | error reason => cases hparse

/-- The greatest integer literal, two signs in a row, and a name that a keyword begins. -/
theorem parseExpression_render_mixed :
    let config : Config := { maxDepth := 0 }
    let e : Expression := .binary .lessEqual (.unary .not (.identifier "if_x"))
      (.binary .divide (.integer 9223372036854775807) (.unary .negate (.unary .negate
        (.identifier "_1"))))
    config.maxDepth = 0 ∧ e.Writable ∧ config.maxInputLength = 0 ∧
      (parseExpression config e.render {}).outcome = .ok e := by
  intro config e
  have hwritable : e.Writable :=
    ⟨show IsName "if_x" by decide +kernel,
      ⟨show (0 : Int) ≤ 9223372036854775807 by decide, by decide⟩,
      show IsName "_1" by decide +kernel⟩
  exact ⟨rfl, hwritable, rfl, parseExpression_render rfl hwritable (.inl rfl) ""⟩

end AttrGrammar.Cpp

import AttrGrammar.Proofs.CppActions
import AttrGrammar.Proofs.CppLexemeLogic

/-! Precedence and associativity. A chain of operands is a tree: it is split at the last of its
loosest operators, and so are both sides. The tiers of the grammar come to the same tree from the other end:
each reads a longest group of tighter operators and joins it to what has been read so far. -/

namespace AttrGrammar.Cpp
open Text Peg Parse
open Reader Context

/-- How tightly an operator binds. -/
def BinaryOp.tightness : BinaryOp → Nat
  | logicalOr => 0
  | logicalAnd => 1
  | equal | notEqual => 2
  | less | lessEqual | greater | greaterEqual => 3
  | add | subtract => 4
  | multiply | divide | remainder => 5

/-! ### Operands -/

/-- An operand as it is written: a name or the digits of a number, and any signs before it. -/
inductive Operand where
  | name (word : String)
  | number (digits : String)
  | signed (op : UnaryOp) (operand : Operand)

namespace Operand

def render : Operand → String
  | name word => word
  | number digits => digits
  | signed op operand => op.symbol ++ operand.render

def tree : Operand → Expression
  | name word => .identifier word
  | number digits => .integer (numeral 10 digits.toList)
  | signed op operand => .unary op operand.tree

/-- Names are no keywords, and numbers are in the range of integer literals. -/
def Writable : Operand → Prop
  | name word => IsName word
  | number digits => digits.toList ≠ [] ∧ digits.toList.all Char.isDigit ∧
      numeral 10 digits.toList ≤ maxInteger
  | signed _ operand => operand.Writable

instance decidableWritable : (o : Operand) → Decidable o.Writable
  | name word => inferInstanceAs (Decidable (IsName word))
  | number _ => inferInstanceAs (Decidable (_ ∧ _ ∧ _))
  | signed _ operand => decidableWritable operand

def text (o : Operand) : List Char := o.render.toList

theorem text_signed (op : UnaryOp) (operand : Operand) :
    (signed op operand).text = op.symbol.toList ++ operand.text := String.toList_append

theorem opens_text {o : Operand} (h : o.Writable) : o.text.head?.any opens := by
  have hopens {c : Char} (hc : isIdCont c) : opens c := Bool.or_eq_true_iff.2 (.inl hc)
  cases o with
  | name word => exact any_head?_mono (fun _ hc => hopens (isIdCont_of_isIdStart hc)) h.1
  | number digits =>
      obtain ⟨hne, hdigits, -⟩ := h
      refine any_head?_mono (fun _ hc => hopens (isIdCont_of_isDigit hc)) ?_
      exact any_head?_of_forall hne (List.all_eq_true.1 hdigits)
  | signed op operand =>
      rw [text_signed]
      cases op <;> rfl

theorem settled_text {o : Operand} (h : o.Writable) (rest : List Char) :
    Settled (o.text ++ rest) := settled_append (opens_text h) rest

theorem length_text_pos {o : Operand} (h : o.Writable) : 1 ≤ o.text.length := by
  have hopens := opens_text h
  cases htext : o.text with
  | nil =>
      rw [htext] at hopens
      cases hopens
  | cons c text => exact Nat.le_add_left 1 text.length

/-- An operand is read to its end, if what follows does not go on with a word. -/
theorem reader_text {o : Operand} (ho : o.Writable) {levels : Nat}
    (hlevels : o.text.length + 2 ≤ levels) {rest : List Char} (hrest : Ends isIdCont rest) :
    reader levels true "Unary" [] (o.text ++ rest) () =
      .hit rest (some (.expression o.tree)) () := by
  induction o generalizing levels with
  | name word =>
      have hlength : 1 ≤ (name word).text.length := length_text_pos ho
      obtain ⟨levels, rfl⟩ := Nat.exists_eq_add_of_le' (show 3 ≤ levels by omega)
      exact unary_word (any_head?_append (any_head?_mono (fun _ => isIdCont_of_isIdStart) ho.1))
        (primary_identifier (Nat.le_add_left 1 levels) ho hrest)
  | number digits =>
      obtain ⟨hne, hdigits, hrange⟩ := ho
      have hlength : 1 ≤ (number digits).text.length := List.length_pos_iff.2 hne
      obtain ⟨levels, rfl⟩ := Nat.exists_eq_add_of_le' (show 3 ≤ levels by omega)
      have hdigits : ∀ c ∈ digits.toList, c.isDigit := List.all_eq_true.1 hdigits
      have hhead := any_head?_mono (fun _ => isIdCont_of_isDigit) (any_head?_of_forall hne hdigits)
      exact unary_word (any_head?_append hhead)
        (primary_number (Nat.le_add_left 1 levels) hne hdigits hrange hrest)
  | signed op operand ih =>
      have hsymbol : op.symbol.toList.length = 1 := by cases op <;> rfl
      rw [text_signed, List.length_append, hsymbol] at hlevels
      obtain ⟨levels, rfl⟩ := Nat.exists_eq_add_of_le' (show 1 ≤ levels by omega)
      rw [text_signed, List.append_assoc]
      exact unary_signed op (by omega) (settled_text (o := operand) ho rest) (ih ho (by omega))

end Operand

/-! ### Chains -/

abbrev Link := BinaryOp × Operand

/-- An operand, and as many operators with an operand behind each as follow it. -/
structure Chain where
  first : Operand
  links : List Link

namespace Chain

def operands (c : Chain) : List Operand := c.first :: c.links.map Prod.snd

/-- What operators and operands behind the first one are written as. -/
def renderLinks : List Link → String
  | [] => ""
  | (op, operand) :: links => " " ++ op.symbol ++ " " ++ operand.render ++ renderLinks links

/-- What a chain is written as; no parentheses show how it is grouped. -/
def render (c : Chain) : String := c.first.render ++ renderLinks c.links

/-! ### Splitting -/

/-- The last of the loosest operators with its operand, and the links before and behind it. -/
def split : List Link →
    Option (List Link × Link × List Link)
  | [] => none
  | link :: links =>
    match split links with
    | none => some ([], link, links)
    | some (front, last, back) =>
      if link.1.tightness < last.1.tightness then some ([], link, links)
      else some (link :: front, last, back)

variable {links front back : List Link} {link : Link}

theorem append_of_split (h : split links = some (front, link, back)) :
    links = front ++ link :: back := by
  induction links generalizing front with
  | nil => cases h
  | cons head links ih =>
      unfold split at h
      split at h
      · cases h
        rfl
      · next hsplit =>
        split at h
        · cases h
          rfl
        · cases h
          rw [ih hsplit, List.cons_append]

/-- No operator before the split is looser, and those behind it are tighter. -/
theorem split_eq (hfront : ∀ l ∈ front, link.1.tightness ≤ l.1.tightness)
    (hback : ∀ l ∈ back, link.1.tightness < l.1.tightness) :
    split (front ++ link :: back) = some (front, link, back) := by
  induction front with
  | nil =>
      rw [List.nil_append, split]
      cases hsplit : split back with
      | none => rfl
      | some parts =>
          obtain ⟨front', last, back'⟩ := parts
          have hlast : last ∈ back := by simp [append_of_split hsplit]
          exact if_pos (hback last hlast)
  | cons head front ih =>
      obtain ⟨hhead, hfront⟩ := List.forall_mem_cons.1 hfront
      rw [List.cons_append, split, ih hfront]
      exact if_neg (Nat.not_lt.2 hhead)

/-- The tree of a chain. -/
def tree (c : Chain) : Expression :=
  match _h : split c.links with
  | none => c.first.tree
  | some (front, (op, operand), back) => .binary op (tree ⟨c.first, front⟩) (tree ⟨operand, back⟩)
  termination_by c.links.length
  decreasing_by
    all_goals
      rw [append_of_split _h, List.length_append, List.length_cons]
      omega

theorem tree_single (first : Operand) : tree ⟨first, []⟩ = first.tree := by
  rw [tree]
  rfl

theorem tree_split {op : BinaryOp} {first operand : Operand}
    (hfront : ∀ l ∈ front, op.tightness ≤ l.1.tightness)
    (hback : ∀ l ∈ back, op.tightness < l.1.tightness) :
    tree ⟨first, front ++ (op, operand) :: back⟩ =
      .binary op (tree ⟨first, front⟩) (tree ⟨operand, back⟩) := by
  have hsplit : split (front ++ (op, operand) :: back) = some (front, (op, operand), back) :=
    split_eq hfront hback
  rw [tree]
  split
  · next hnone =>
    rw [hsplit] at hnone
    cases hnone
  · next hsome =>
    rw [hsplit] at hsome
    cases hsome
    rfl

/-! ### Texts of chains -/

/-- What links are written as. -/
def linksText (links : List Link) : List Char := (renderLinks links).toList

theorem linksText_cons (op : BinaryOp) (operand : Operand)
    (links : List Link) :
    linksText ((op, operand) :: links) =
      ' ' :: (op.symbol.toList ++ ' ' :: (operand.text ++ linksText links)) := by
  simp only [linksText, renderLinks, Operand.text, String.toList_append, List.append_assoc]
  rfl

theorem linksText_append (front back : List Link) :
    linksText (front ++ back) = linksText front ++ linksText back := by
  induction front with
  | nil => rfl
  | cons link front ih =>
      rw [List.cons_append, linksText_cons, linksText_cons, ih]
      simp

theorem toList_render (c : Chain) : c.render.toList = c.first.text ++ linksText c.links :=
  String.toList_append

end Chain

theorem lexemes_links (op : BinaryOp) (operand : Operand)
    (links : List Link) (next : List Char) :
    lexemes (Chain.linksText ((op, operand) :: links) ++ next) =
      op.symbol.toList :: lexemes (operand.text ++ (Chain.linksText links ++ next)) := by
  rw [Chain.linksText_cons, List.cons_append, lexemes_blank, List.append_assoc, List.cons_append,
    List.append_assoc, lexemes_spaced (settled_symbol op _) (firstLexeme_symbol op _)]

/-! ### Tiers -/

/-- The operator belongs to one of the tiers. -/
def Joins (back : List Tier) (op : BinaryOp) : Prop := ∃ t ∈ back, op ∈ t.operators

instance (back : List Tier) (op : BinaryOp) : Decidable (Joins back op) :=
  inferInstanceAs (Decidable (∃ t ∈ back, _))

theorem tightness_pairwise : tiers.Pairwise fun t t' =>
    ∀ op ∈ t.operators, ∀ op' ∈ t'.operators, op.tightness < op'.tightness := by decide

theorem tightness_tier : ∀ t ∈ tiers, ∀ op ∈ t.operators, ∀ op' ∈ t.operators,
    op.tightness = op'.tightness := by decide

section

variable {t : Tier} {back : List Tier} {op op' : BinaryOp}

theorem tightness_lt (hsuffix : t :: back <:+ tiers) (hop : op ∈ t.operators)
    (hop' : Joins back op') : op.tightness < op'.tightness := by
  obtain ⟨t', ht', hop'⟩ := hop'
  have hpairwise := tightness_pairwise.sublist hsuffix.sublist
  exact (List.pairwise_cons.1 hpairwise).1 t' ht' op hop op' hop'

theorem tightness_le (hsuffix : t :: back <:+ tiers) (hop : op ∈ t.operators)
    (hop' : Joins (t :: back) op') : op.tightness ≤ op'.tightness := by
  obtain ⟨t', ht', hop'⟩ := hop'
  rcases List.mem_cons.1 ht' with rfl | ht'
  · exact Nat.le_of_eq (tightness_tier t' (hsuffix.subset List.mem_cons_self) op hop op' hop')
  · exact Nat.le_of_lt (tightness_lt hsuffix hop ⟨t', ht', hop'⟩)

/-- An operator of a tier is none of a tighter one. -/
theorem not_joins (hsuffix : t :: back <:+ tiers) (hop : op ∈ t.operators) : ¬ Joins back op :=
  fun h => Nat.lt_irrefl _ (tightness_lt hsuffix hop h)

end

/-! ### Reading chains -/

/-- Nothing that follows goes on with a chain whose operators belong to these tiers. -/
structure Follows (back : List Tier) (next : List Char) : Prop where
  word : Ends isIdCont next
  comment : (lexemes next).head? ≠ some "/*".toList
  operator : ∀ op, Joins back op → (lexemes next).head? ≠ some op.symbol.toList

section

variable {levels : Nat} {next : List Char}

/-- An operand is read to its end. -/
theorem operand_leads {o : Operand} (ho : o.Writable) (hlevels : o.text.length + 2 ≤ levels)
    (hnext : Ends isIdCont next) :
    RuleLeads (reader levels true "Unary") (lexemes (o.text ++ next))
      (.exactly (lexemes next) (some (.expression o.tree))) :=
  .of_hit ((lexicalRules levels).lexical "Unary") (Operand.settled_text ho next)
    (Operand.reader_text ho hlevels hnext)

theorem follows_link {t : Tier} {back : List Tier} (hsuffix : t :: back <:+ tiers) {op : BinaryOp}
    (hop : op ∈ t.operators) (operand : Operand) (links : List Link) :
    Follows back (Chain.linksText ((op, operand) :: links) ++ next) where
  word := by
    rw [Chain.linksText_cons]
    exact ends_blank _
  comment := by
    have hsymbol : op.symbol.toList ≠ "/*".toList := by cases op <;> decide
    rw [lexemes_links]
    exact fun h => hsymbol (Option.some.inj h)
  operator op' hop' := by
    rw [lexemes_links]
    intro h
    have hsame : op = op' := symbol_injective (Option.some.inj h)
    exact not_joins hsuffix hop (hsame ▸ hop')

/-- The rule reads every chain whose operators belong to these tiers, whatever follows it. -/
def ReadsChains (levels : Nat) (back : List Tier) (call : Callee Value Unit) : Prop :=
  ∀ (c : Chain) (next : List Char),
    (∀ e ∈ c.operands, e.Writable ∧ e.text.length + 2 ≤ levels) →
    (∀ link ∈ c.links, Joins back link.1) → Follows back next →
    RuleLeads call (lexemes (c.first.text ++ (Chain.linksText c.links ++ next)))
      (.exactly (lexemes next) (some (.expression c.tree)))

theorem readsChains_nil (levels : Nat) : ReadsChains levels [] (reader levels true "Unary") := by
  rintro ⟨first, links⟩ next hoperands hjoins hnext
  cases links with
  | nil =>
      obtain ⟨hfirst, hlevels⟩ := hoperands first List.mem_cons_self
      rw [Chain.tree_single]
      exact operand_leads hfirst hlevels hnext.word
  | cons link links =>
      obtain ⟨t, ht, -⟩ := hjoins link List.mem_cons_self
      cases ht

variable {t : Tier} {back : List Tier} {call : Callee Value Unit}

/-- Before an operator of the tier, or at the end, every chain of tighter operators ends. -/
theorem Follows.links (hnext : Follows (t :: back) next) (hsuffix : t :: back <:+ tiers)
    {links : List Link} (hhead : ∀ link ∈ links.head?, link.1 ∈ t.operators) :
    Follows back (Chain.linksText links ++ next) := by
  cases links with
  | nil =>
      exact ⟨hnext.word, hnext.comment, fun op ⟨t', ht', hop⟩ =>
        hnext.operator op ⟨t', List.mem_cons_of_mem t ht', hop⟩⟩
  | cons link links => exact follows_link hsuffix (hhead link rfl) link.2 links

/-- The longest group of links whose operators belong to these tiers. -/
def group (back : List Tier) (links : List Link) :
    List Link := links.takeWhile fun link => Joins back link.1

/-- The links behind that group. -/
def behindGroup (back : List Tier) (links : List Link) :
    List Link := links.dropWhile fun link => Joins back link.1

theorem group_append (back : List Tier) (links : List Link) :
    group back links ++ behindGroup back links = links := List.takeWhile_append_dropWhile

theorem joins_of_mem_group {links : List Link} {link : Link}
    (h : link ∈ group back links) : Joins back link.1 := by
  simpa using List.mem_takeWhile_imp h

/-- Behind a group of tighter operators there is one of the tier. -/
theorem mem_of_head?_behindGroup {links : List Link}
    (hjoins : ∀ link ∈ links, Joins (t :: back) link.1) :
    ∀ link ∈ (behindGroup back links).head?, link.1 ∈ t.operators := by
  intro link hlink
  have hnot := List.head?_dropWhile_not (fun link => decide (Joins back link.1)) links
  rw [show links.dropWhile (fun link => decide (Joins back link.1)) = behindGroup back links
    from rfl, hlink] at hnot
  have hmem : link ∈ links := (List.dropWhile_sublist _).subset (List.mem_of_mem_head? hlink)
  obtain ⟨t', ht', hop⟩ := hjoins link hmem
  rcases List.mem_cons.1 ht' with rfl | ht'
  · exact hop
  · have hjoined : Joins back link.1 := ⟨t', ht', hop⟩
    exact absurd hjoined (by simpa using hnot)

/-- The rule for tighter operators reads the longest group of them. -/
theorem ReadsChains.group_leads (h : ReadsChains levels back call) (hsuffix : t :: back <:+ tiers)
    {c : Chain} (hoperands : ∀ e ∈ c.operands, e.Writable ∧ e.text.length + 2 ≤ levels)
    (hjoins : ∀ link ∈ c.links, Joins (t :: back) link.1) (hnext : Follows (t :: back) next) :
    RuleLeads call (lexemes (c.first.text ++ (Chain.linksText c.links ++ next)))
      (.exactly (lexemes (Chain.linksText (behindGroup back c.links) ++ next))
        (some (.expression (Chain.tree ⟨c.first, group back c.links⟩)))) := by
  have htext : Chain.linksText c.links ++ next =
      Chain.linksText (group back c.links) ++
        (Chain.linksText (behindGroup back c.links) ++ next) := by
    rw [← List.append_assoc, ← Chain.linksText_append, group_append]
  rw [htext]
  refine h ⟨c.first, group back c.links⟩ _ (fun e he => hoperands e ?_)
    (fun link hlink => joins_of_mem_group hlink)
    (hnext.links hsuffix (mem_of_head?_behindGroup hjoins))
  refine List.mem_cons.2 ((List.mem_cons.1 he).imp_right fun hmem => ?_)
  exact List.map_subset _ (List.takeWhile_sublist _).subset hmem

/-- The frame in which a tier joins the groups it reads. -/
def joining (e : Expression) : Frame Value :=
  ((Frame.ofLocals ["op"]).bindInherited [] []).setValue (.expression e)

/-- Before each round the links read so far are a tree, and one of the tier's operators is next. -/
def BeforeRound (t : Tier) (c : Chain) (next : List Char) (ls : List (List Char))
    (f : Frame Value) : Prop :=
  ∃ done todo, c.links = done ++ todo ∧ (∀ link ∈ todo.head?, link.1 ∈ t.operators) ∧
    f = joining (Chain.tree ⟨c.first, done⟩) ∧ ls = lexemes (Chain.linksText todo ++ next)

section

variable {depth : Nat} {c : Chain}

/-- A round joins the tree so far and the next group; it misses where the chain ends. -/
theorem ReadsChains.round (hdepth : 1 ≤ depth) (hsuffix : t :: back <:+ tiers)
    (h : ReadsChains levels back (reader depth true (entry back)))
    (hoperands : ∀ o ∈ c.operands, o.Writable ∧ o.text.length + 2 ≤ levels)
    (hjoins : ∀ link ∈ c.links, Joins (t :: back) link.1) (hnext : Follows (t :: back) next)
    {ls : List (List Char)} {f : Frame Value} (hround : BeforeRound t c next ls f) :
    Leads (readOperation (gap depth true) (reader depth true) (entry back) t.operators) ls f
      ⟨BeforeRound t c next, fun f => f = joining c.tree ∧ ls = lexemes next, fun _ => False⟩ := by
  have hcrosses := (lexicalRules depth).crosses
  have hpicks := picks_tier t (hsuffix.subset List.mem_cons_self)
  obtain ⟨done, todo, hlinks, hhead, rfl, rfl⟩ := hround
  cases todo with
  | nil =>
      have hnone (op : BinaryOp) (hop : op ∈ t.operators) :
          (lexemes next).head? ≠ some op.symbol.toList :=
        hnext.operator op ⟨t, List.mem_cons_self, hop⟩
      refine .action (.spaced hcrosses (.operator hpicks (fun op hop ls hls => ?_) fun _ => ?_))
      · exact absurd (congrArg List.head? hls) (hnone op hop)
      · rw [List.append_nil] at hlinks
        rw [← hlinks]
        exact ⟨rfl, rfl⟩
  | cons link todo =>
      obtain ⟨op, operand⟩ := link
      have hop : op ∈ t.operators := hhead _ rfl
      rw [lexemes_links]
      refine .action (.spaced hcrosses (.operator hpicks (fun op' _ ls hls => ?_)
        fun hmiss => absurd rfl (hmiss op hop)))
      obtain ⟨hsymbol, rfl⟩ := List.cons.inj hls
      obtain rfl := symbol_injective hsymbol
      have hbehind : (op, operand) :: todo ⊆ c.links := by simp [hlinks]
      have hoperands' : ∀ o ∈ Chain.operands ⟨operand, todo⟩,
          o.Writable ∧ o.text.length + 2 ≤ levels := fun o ho =>
        hoperands o (List.mem_cons_of_mem _ (List.map_subset Prod.snd hbehind ho))
      have hjoins' : ∀ link ∈ todo, Joins (t :: back) link.1 := fun link hlink =>
        hjoins link (hbehind (List.mem_cons_of_mem _ hlink))
      have hoperand := (hoperands' operand List.mem_cons_self).1
      refine ⟨passes_settled hdepth (Operand.settled_text hoperand _), .expect
        (.nonterminal_exactly (h.group_leads hsuffix hoperands' hjoins' hnext) ?_)⟩
      refine ⟨_, fun text => combine_of text (entry back) op _ _,
        done ++ (op, operand) :: group back todo, behindGroup back todo, ?_,
        mem_of_head?_behindGroup hjoins', ?_, rfl⟩
      · rw [hlinks, List.append_assoc, List.cons_append, group_append]
      · rw [Chain.tree_split
          (fun link hlink => tightness_le hsuffix hop (hjoins link (by simp [hlinks, hlink])))
          fun link hlink => tightness_lt hsuffix hop (joins_of_mem_group hlink)]
        rfl

end

/-- A tier reads one group after the other and joins each to what has been read before it. -/
theorem ReadsChains.level {depth : Nat} (hdepth : 1 ≤ depth) (hsuffix : t :: back <:+ tiers)
    (h : ReadsChains levels back (reader depth true (entry back))) :
    ReadsChains levels (t :: back) (reader (depth + 1) true t.name) := by
  intro c next hoperands hjoins hnext
  have hrules := lexicalRules depth
  have hhead := mem_of_head?_behindGroup hjoins
  have hpasses {links : List Link} (hhead : ∀ link ∈ links.head?, link.1 ∈ t.operators) :=
    passes_gap hdepth (hnext.links hsuffix hhead).comment fun _ => False
  have hreads : (readOperation (gap depth true) (reader depth true) (entry back)
      t.operators).Reads 1 :=
    (((readOperator_reads t.operators).seq (hrules.gapReads.seq
      (Reads.nonterminal (hrules.reads _) _ _).expect)).action _).mono (by omega)
  rw [reader_succ, readRule_tier _ _ hsuffix]
  refine .activation (.spaced hrules.crosses (.action (.nonterminal_exactly
    (h.group_leads hsuffix hoperands hjoins hnext) ?_)))
  refine ⟨_, passOn_of rfl (entry back) _, hpasses hhead, .star hrules.crosses hrules.gapReads
    hreads (I := BeforeRound t c next) ?_ (fun ls f hround => ?_)
    ⟨_, _, (group_append back c.links).symm, hhead, rfl, rfl⟩⟩
  · rintro _ _ ⟨done, todo, -, hhead, -, rfl⟩
    exact hpasses hhead
  · refine (h.round hdepth hsuffix hoperands hjoins hnext hround).mono (fun _ _ => id) ?_
      fun _ => id
    rintro _ ⟨rfl, rfl⟩
    exact ⟨_, rfl, rfl, rfl⟩

/-- Each tier reads the chains of its operators and all tighter ones. -/
theorem readsChains (hlevels : 1 ≤ levels) {back : List Tier} (hsuffix : back <:+ tiers) :
    ReadsChains levels back (reader (levels + back.length) true (entry back)) := by
  induction back with
  | nil => exact readsChains_nil levels
  | cons t back ih =>
      have htighter := ih ((List.suffix_cons t back).trans hsuffix)
      exact htighter.level (Nat.le_add_right_of_le hlevels) hsuffix

/-- The rule for expressions reads every chain. -/
theorem readsChains_expression (hlevels : 1 ≤ levels) :
    ReadsChains levels tiers (reader (levels + 7) true "Expression") := by
  intro c next hoperands hjoins hnext
  have hread := readsChains hlevels List.suffix_rfl c next hoperands hjoins hnext
  rw [reader_succ]
  exact .activation (.action (.nonterminal_exactly hread
    ⟨_, passOn_of rfl "LogicalOr" _, _, rfl, rfl, rfl⟩))

end

/-! ### Whole chains -/

theorem Chain.length_text_le {c : Chain} {o : Operand} (ho : o ∈ c.operands) :
    o.text.length ≤ c.render.toList.length := by
  obtain ⟨first, links⟩ := c
  rw [toList_render, List.length_append]
  rcases List.mem_cons.1 ho with rfl | ho
  · exact Nat.le_add_right _ _
  · refine Nat.le_add_left_of_le ?_
    obtain ⟨link, hlink, rfl⟩ := List.mem_map.1 ho
    obtain ⟨front, back, rfl⟩ := List.append_of_mem hlink
    rw [linksText_append, linksText_cons]
    simp only [List.length_append, List.length_cons]
    omega

theorem follows_nil (back : List Tier) : Follows back [] where
  word := nofun
  comment := by simp [lexemes_nil]
  operator op _ := by simp [lexemes_nil]

/-- However blanks and comments stand between them, operands and operators in a row are parsed as
the tree that is split at the last of the loosest operators, and so on at both sides. -/
theorem parseExpression_chain {config : Config} (hdepth : config.maxDepth = 0) {c : Chain}
    (hc : ∀ o ∈ c.operands, o.Writable) {input : String}
    (hinput : lexemes input.toList = lexemes c.render.toList)
    (hshort : config.maxInputLength = 0 ∨ input.toList.length ≤ config.maxInputLength)
    (fileName : String) : (parseExpression config input { fileName }).outcome = .ok c.tree := by
  let n := c.render.toList.length
  obtain ⟨depth, hlevels, hdepth⟩ : ∃ depth, levels config n = depth + 7 ∧ n + 2 ≤ depth := by
    rw [levels, if_pos hdepth]
    exact ⟨20 * (n + 2) + UInt32.size - 7, by omega, by omega⟩
  have hsettled := Operand.settled_text (hc _ List.mem_cons_self) (Chain.linksText c.links)
  have hread : RuleLeads (reader (depth + 7) true "Expression") (lexemes c.render.toList)
      (.exactly [] (some (.expression c.tree))) := by
    have hpos : 1 ≤ depth := by omega
    have hchain := readsChains_expression hpos c [] (fun o ho =>
      ⟨hc o ho, Nat.le_trans (Nat.add_le_add_right (Chain.length_text_le ho) 2) hdepth⟩)
      (fun link _ => exists_tier link.1) (follows_nil tiers)
    rwa [List.append_nil, ← Chain.toList_render, lexemes_nil] at hchain
  refine ok_of_toOption ?_
  calc (parseExpression config input { fileName }).outcome.toOption
      = picked Value.expression? (readWhole (levels config input.toList.length) "Expression"
          input.toList) := parseExpression_denotes config input fileName hshort
    _ = picked Value.expression? (readWhole (levels config n) "Expression" c.render.toList) :=
        picked_levels config _ _ hinput
    _ = some c.tree := by
        rw [hlevels]
        refine picked_of_exactly (by omega) ?_ hread
        rw [Chain.toList_render]
        exact hsettled.head?_ne_comment

/-- Four levels of operators, some more than once, with signs, a leading zero and a comment. -/
theorem parseExpression_chain_mixed :
    let config : Config := { maxDepth := 0 }
    let a : Operand := .name "a"
    let c : Chain := ⟨a, [(.subtract, .signed .negate (.signed .not a)), (.subtract, .number "07"),
      (.multiply, a), (.logicalAnd, a), (.lessEqual, a), (.logicalAnd, a)]⟩
    let input := "a-- ! a - 07 * a /* */ && a<=a && a"
    let x : Expression := .identifier "a"
    config.maxDepth = 0 ∧ (∀ o ∈ c.operands, o.Writable) ∧
      lexemes input.toList = lexemes c.render.toList ∧ config.maxInputLength = 0 ∧
      (parseExpression config input {}).outcome = .ok c.tree ∧
      c.tree = .binary .logicalAnd (.binary .logicalAnd (.binary .subtract
        (.binary .subtract x (.unary .negate (.unary .not x))) (.binary .multiply (.integer 7) x))
        (.binary .lessEqual x x)) x := by
  intro config a c input x
  have hc : ∀ o ∈ c.operands, o.Writable := by decide +kernel
  have hinput : lexemes input.toList = lexemes c.render.toList := by decide +kernel
  refine ⟨rfl, hc, hinput, rfl, parseExpression_chain rfl hc hinput (.inl rfl) "", ?_⟩
  decide +kernel

end AttrGrammar.Cpp

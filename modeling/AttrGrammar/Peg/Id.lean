import AttrGrammar.Text.Record

/-! Numbers of rules and grammars in a domain. They are words of 32 bits: a larger number is taken
modulo 2^32. -/

namespace AttrGrammar.Peg
open Text

/-- The place of a rule in the rule table of its domain. -/
structure RuleId where
  word : UInt32
  deriving DecidableEq, Inhabited

/-- The place of a grammar in its domain. -/
structure GrammarId where
  word : UInt32
  deriving DecidableEq, Inhabited

def RuleId.ofNat (n : Nat) : RuleId := ⟨n.toUInt32⟩

def RuleId.index (id : RuleId) : Nat := id.word.toNat

def GrammarId.ofNat (n : Nat) : GrammarId := ⟨n.toUInt32⟩

def GrammarId.index (id : GrammarId) : Nat := id.word.toNat

instance : Describe RuleId := ⟨fun id => variantText "RuleId" (describe id.index)⟩

instance : Describe GrammarId := ⟨fun id => variantText "GrammarId" (describe id.index)⟩

@[simp]
theorem RuleId.index_ofNat {n : Nat} (h : n < UInt32.size) : (RuleId.ofNat n).index = n :=
  Nat.mod_eq_of_lt h

@[simp]
theorem GrammarId.index_ofNat {n : Nat} (h : n < UInt32.size) : (GrammarId.ofNat n).index = n :=
  Nat.mod_eq_of_lt h

@[simp]
theorem GrammarId.ofNat_index (id : GrammarId) : GrammarId.ofNat id.index = id :=
  congrArg mk (UInt32.ofNat_toNat)

end AttrGrammar.Peg

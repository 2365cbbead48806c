import ShiftReduce.Order.Ascending

/-!
# Grammar symbols

A symbol is any string; whether it is a terminal or a non-terminal is a matter of the two symbol
sets of a grammar, and a grammar written by hand may put one in both sets or in none.
-/

namespace ShiftReduce

/-- A grammar symbol or input token. -/
abbrev Symbol := String

/-- The symbol that closes every input. -/
def endMarker : Symbol := "$"

/-- How an empty right-hand side is shown. -/
def emptyWord : String := "ε"

/-- A finite set of symbols, as the ascending list of its members. -/
structure SymbolSet where
  /-- The members in ascending order. -/
  toList : List Symbol
  /-- The members ascend strictly, so the list is determined by what it holds. -/
  ascending : toList.Pairwise (· < ·)
deriving DecidableEq

namespace SymbolSet

/-- The set of the symbols in a list. -/
def ofList (l : List Symbol) : SymbolSet :=
  ⟨Ascending.ofList l, Ascending.pairwise_ofList l⟩

instance : EmptyCollection SymbolSet := ⟨ofList []⟩

instance : Membership Symbol SymbolSet where
  mem s x := x ∈ s.toList

instance (x : Symbol) (s : SymbolSet) : Decidable (x ∈ s) :=
  inferInstanceAs (Decidable (x ∈ s.toList))

/-- The set with one more member. -/
def insert (x : Symbol) (s : SymbolSet) : SymbolSet :=
  ⟨Ascending.insert x s.toList, Ascending.pairwise_insert s.ascending⟩

@[simp] theorem mem_toList {x : Symbol} {s : SymbolSet} : x ∈ s.toList ↔ x ∈ s := Iff.rfl

@[simp] theorem mem_ofList {x : Symbol} {l : List Symbol} : x ∈ ofList l ↔ x ∈ l :=
  Ascending.mem_ofList

@[simp] theorem mem_insert {x y : Symbol} {s : SymbolSet} : x ∈ s.insert y ↔ x = y ∨ x ∈ s :=
  Ascending.mem_insert

end SymbolSet

end ShiftReduce

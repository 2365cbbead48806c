import ShiftReduce.Grammar.Augmented
import ShiftReduce.Order.Ascending

/-!
# Items

An item is a production with a dot somewhere in its right-hand side: what stands before the dot
has been seen, what stands behind it is hoped for. It is kept as two numbers. The items made here
name productions of their grammar, so the operations on an item take its production to be there; a
dot may stand past the end, and then it counts as standing at the end.

Item sets are lists of items in ascending order, by production and then by dot. The *signature*
of an item set is a text that any two lists with the same items share.
-/

namespace ShiftReduce

/-- A production number with a place in its right-hand side. -/
structure Item where
  /-- The number of the production. -/
  production : Nat
  /-- How many symbols stand before the dot. -/
  dot : Nat
deriving DecidableEq

namespace Item

/-- Items are ordered by production first and by dot second. -/
instance : LT Item where
  lt i j := i.production < j.production ∨ i.production = j.production ∧ i.dot < j.dot

theorem lt_iff {i j : Item} :
    i < j ↔ i.production < j.production ∨ i.production = j.production ∧ i.dot < j.dot :=
  Iff.rfl

instance : DecidableLT Item := fun i j =>
  inferInstanceAs (Decidable (i.production < j.production ∨ _ ∧ i.dot < j.dot))

instance : Trans (α := Item) (· < ·) (· < ·) (· < ·) where
  trans h k := by simp only [lt_iff] at h k ⊢; omega

instance : Std.Trichotomous (α := Item) (· < ·) where
  trichotomous i j h k := by
    cases i; cases j
    simp only [lt_iff] at h k
    simp only [Item.mk.injEq]
    omega

/-- The item with the dot one place further on. -/
def advance (i : Item) : Item :=
  { i with dot := i.dot + 1 }

/-- The item as a text. -/
def key (i : Item) : String :=
  toString i.production ++ "@" ++ toString i.dot

/-- The mark for the dot. -/
def mark : String := "•"

/-- The signature of a list of items: their texts in ascending order of texts, each once. -/
def signature (items : List Item) : String :=
  "|".intercalate (Ascending.ofList (items.map key))

example : signature [⟨2, 0⟩, ⟨10, 0⟩, ⟨2, 0⟩] = "10@0|2@0" := by decide +kernel

end Item

namespace Augmented

/-- The symbol behind the dot of an item of the grammar, none if the dot stands at the end. -/
def nextSymbol (g : Augmented) (i : Item) : Option Symbol :=
  (g.rhs i.production)[i.dot]?

/-- Whether the dot stands at the end. -/
def isComplete (g : Augmented) (i : Item) : Bool :=
  decide ((g.rhs i.production).length ≤ i.dot)

/-- How an item is shown: its production with the dot in place. -/
def itemText (g : Augmented) (i : Item) : String :=
  let rhs := g.rhs i.production
  g.lhs i.production ++ " -> " ++ " ".intercalate (rhs.take i.dot ++ Item.mark :: rhs.drop i.dot)

/-- Every item of the grammar whose dot does not stand past the end. -/
def items (g : Augmented) : List Item :=
  g.productions.toList.zipIdx.flatMap fun (p, k) =>
    (List.range (p.rhs.length + 1)).map fun dot => ⟨k, dot⟩

end Augmented

end ShiftReduce

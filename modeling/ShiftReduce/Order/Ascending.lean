/-!
# Strictly ascending lists

A finite set of symbols, of items or of state numbers is kept, and shown, as the strictly
ascending list of its members. Inserting into such a list keeps it ascending and adds a member
only once, so a set has one list, whatever the order in which its members came.
-/

namespace ShiftReduce.Ascending

variable {α : Type} [LT α] [DecidableLT α] [DecidableEq α]

/-- Inserts a member into an ascending list. -/
def insert (a : α) : List α → List α
  | [] => [a]
  | b :: l => if a < b then a :: b :: l else if a = b then b :: l else b :: insert a l

/-- The members of a list in ascending order, each once. -/
def ofList (l : List α) : List α :=
  l.foldr insert []

@[simp] theorem mem_insert {a x : α} {l : List α} : x ∈ insert a l ↔ x = a ∨ x ∈ l := by
  induction l with
  | nil => simp [insert]
  | cons b l ih =>
    simp only [insert]
    split
    · simp
    · split
      · next h => subst h; simp
      · simp only [List.mem_cons, ih, or_left_comm]

@[simp] theorem mem_ofList {x : α} {l : List α} : x ∈ ofList l ↔ x ∈ l := by
  induction l with
  | nil => simp [ofList]
  | cons a l ih =>
    rw [List.mem_cons, ← ih]
    exact mem_insert

variable [Trans (α := α) (· < ·) (· < ·) (· < ·)] [Std.Trichotomous (α := α) (· < ·)]

theorem pairwise_insert {a : α} {l : List α} (h : l.Pairwise (· < ·)) :
    (insert a l).Pairwise (· < ·) := by
  induction l with
  | nil => simp [insert]
  | cons b l ih =>
    have hb := List.pairwise_cons.1 h
    simp only [insert]
    split
    · next hab =>
      refine List.pairwise_cons.2 ⟨fun x hx => ?_, h⟩
      rcases List.mem_cons.1 hx with rfl | hx
      · exact hab
      · exact Std.lt_trans hab (hb.1 x hx)
    · next hab =>
      split
      · exact h
      · next hne =>
        refine List.pairwise_cons.2 ⟨fun x hx => ?_, ih hb.2⟩
        rcases mem_insert.1 hx with rfl | hx
        · exact Decidable.byContradiction fun hba =>
            hne (Std.Trichotomous.trichotomous (r := (· < ·)) _ _ hab hba)
        · exact hb.1 x hx

theorem pairwise_ofList (l : List α) : (ofList l).Pairwise (· < ·) := by
  induction l with
  | nil => exact List.Pairwise.nil
  | cons a l ih => exact pairwise_insert ih

end ShiftReduce.Ascending

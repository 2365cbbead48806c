import ShiftReduce.Item.Closure

/-!
# Items written by hand

An item from outside may give any two integers for the number of its production and for the place
of its dot. Both are taken the way positions in lists are taken: a negative one counts from the end.
A dot at the end or past it has nothing behind it, wherever the end is. An item is *unreadable* if
it names no production, or if what it names has no symbol where its dot stands and the dot is not
past the end either. The operations on items have no value then.

The closure of some items is found by a loop. It takes items up, each once by its key, and asks them
in the order in which they were taken up for the items of the productions that they hope for. It
ends because every round but finitely many adds a production that was missing
(`ShiftReduce.Augmented.Worklist.work_lt`).
-/

namespace ShiftReduce

/-- A production number with a place in its right-hand side, both any integers. -/
structure SignedItem where
  /-- The number of the production. -/
  production : Int
  /-- The place of the dot. -/
  dot : Int
deriving DecidableEq

namespace SignedItem

/-- Items are ordered by production first and by dot second. -/
instance : LT SignedItem where
  lt i j := i.production < j.production ∨ i.production = j.production ∧ i.dot < j.dot

theorem lt_iff {i j : SignedItem} :
    i < j ↔ i.production < j.production ∨ i.production = j.production ∧ i.dot < j.dot :=
  Iff.rfl

instance : DecidableLT SignedItem := fun i j =>
  inferInstanceAs (Decidable (i.production < j.production ∨ _ ∧ i.dot < j.dot))

instance : Trans (α := SignedItem) (· < ·) (· < ·) (· < ·) where
  trans h k := by simp only [lt_iff] at h k ⊢; omega

instance : Std.Trichotomous (α := SignedItem) (· < ·) where
  trichotomous i j h k := by
    cases i; cases j
    simp only [lt_iff] at h k
    simp only [SignedItem.mk.injEq]
    omega

/-- An item of a grammar. -/
def ofItem (i : Item) : SignedItem :=
  ⟨i.production, i.dot⟩

/-- The item with the dot one place further on. -/
def advance (i : SignedItem) : SignedItem :=
  { i with dot := i.dot + 1 }

/-- The item as a text. -/
def key (i : SignedItem) : String :=
  toString i.production ++ "@" ++ toString i.dot

/-- The signature of a list of items: their texts in ascending order of texts, each once. -/
def signature (items : List SignedItem) : String :=
  "|".intercalate (Ascending.ofList (items.map key))

end SignedItem

/-- The place where something is put into a list of some length at an integer, which counts from the
end if it is negative. What lies outside the list is taken as the nearer end. -/
def insertionPlace (length : Nat) (i : Int) : Nat :=
  if 0 ≤ i then i.toNat else length - i.natAbs

/-- The members of a list that pass a test, if the test has an answer for each. -/
def filter? {α : Type} (test : α → Option Bool) : List α → Option (List α)
  | [] => some []
  | a :: l => do
    let passes ← test a
    let rest ← filter? test l
    return if passes then a :: rest else rest

namespace Augmented

/-! ### Reading an item -/

/-- The symbol behind the dot, none if the dot stands at the end or past it; there is no answer if
the item is unreadable. -/
def nextSymbol? (g : Augmented) (i : SignedItem) : Option (Option Symbol) :=
  (g.production? i.production).bind fun p =>
    if i.dot < p.rhs.length then
      ((signedIndex? p.rhs.length i.dot).bind fun k => p.rhs[k]?).map some
    else some none

/-- Whether the dot stands at the end or past it, if the item names a production. -/
def isComplete? (g : Augmented) (i : SignedItem) : Option Bool :=
  (g.production? i.production).map fun p => decide (p.rhs.length ≤ i.dot)

/-- How an item is shown, if it names a production: the production with the dot in place. -/
def itemText? (g : Augmented) (i : SignedItem) : Option String :=
  (g.production? i.production).map fun p =>
    let k := insertionPlace p.rhs.length i.dot
    p.lhs ++ " -> " ++ " ".intercalate (p.rhs.take k ++ Item.mark :: p.rhs.drop k)

/-- The symbols behind a dot, each once, in order of first occurrence. -/
def symbolsAfterDot? (g : Augmented) (items : List SignedItem) : Option (List Symbol) :=
  (items.mapM g.nextSymbol?).map fun next => (next.filterMap id).eraseDups

/-! ### The closure -/

/-- The numbers of the productions of a symbol, in order. -/
def numbersOf (g : Augmented) (s : Symbol) : List Int :=
  (g.productions.toList.filter (·.lhs = s)).map (·.id)

/-- The items of the productions that an item hopes for when a symbol stands behind its dot. -/
def hopesFor (g : Augmented) : Option Symbol → List SignedItem
  | some s => if s ∈ g.nonTerminals then (g.numbersOf s).map fun p => ⟨p, 0⟩ else []
  | none => []

/-- The items taken up so far, in order, and those of them that wait to be asked. -/
structure Worklist where
  /-- The items taken up. -/
  found : List SignedItem := []
  /-- The items that wait. -/
  pending : List SignedItem := []

namespace Worklist

/-- Takes up an item, unless one with its key is there. -/
def offer (w : Worklist) (i : SignedItem) : Worklist :=
  if i.key ∈ w.found.map SignedItem.key then w else ⟨w.found ++ [i], w.pending ++ [i]⟩

/-- How many productions have no item with the dot at the start among those taken up. -/
def missing (g : Augmented) (found : List SignedItem) : Nat :=
  g.productions.toList.countP fun p => (⟨p.id, 0⟩ : SignedItem).key ∉ found.map SignedItem.key

/-- The quantity that every round of the closure lowers. -/
def work (g : Augmented) (w : Worklist) : Nat :=
  missing g w.found * (g.productions.size + 1) + w.pending.length

/-- Items that are offered are added to both lists, as far as they are new. -/
theorem exists_foldl_offer (asked : List SignedItem) (w : Worklist) :
    ∃ fresh, asked.foldl offer w = ⟨w.found ++ fresh, w.pending ++ fresh⟩ ∧
      fresh.length ≤ asked.length ∧
      ∀ i ∈ fresh, i ∈ asked ∧ i.key ∉ w.found.map SignedItem.key := by
  induction asked generalizing w with
  | nil => exact ⟨[], by simp⟩
  | cons i asked ih =>
    obtain ⟨fresh, hfold, hlength, hfresh⟩ := ih (w.offer i)
    rw [List.foldl_cons, hfold]
    by_cases hi : i.key ∈ w.found.map SignedItem.key
    · rw [offer, if_pos hi] at hfresh ⊢
      refine ⟨fresh, rfl, Nat.le_succ_of_le hlength, fun j hj => ?_⟩
      exact ⟨List.mem_cons_of_mem _ (hfresh j hj).1, (hfresh j hj).2⟩
    · rw [offer, if_neg hi] at hfresh ⊢
      refine ⟨i :: fresh, by simp, by simpa using hlength, fun j hj => ?_⟩
      rcases List.mem_cons.1 hj with rfl | hj
      · exact ⟨List.mem_cons_self, hi⟩
      · obtain ⟨hmem, hnew⟩ := hfresh j hj
        refine ⟨List.mem_cons_of_mem _ hmem, fun h => hnew ?_⟩
        simp only [List.map_append, List.mem_append]
        exact .inl h

theorem exists_production_of_mem_hopesFor {g : Augmented} {next : Option Symbol} {i : SignedItem}
    (h : i ∈ g.hopesFor next) : ∃ p ∈ g.productions.toList, i = ⟨p.id, 0⟩ := by
  unfold hopesFor at h
  split at h
  · split at h
    · simp only [numbersOf, List.mem_map, List.mem_filter] at h
      obtain ⟨_, ⟨p, ⟨hp, -⟩, rfl⟩, rfl⟩ := h
      exact ⟨p, hp, rfl⟩
    · exact absurd h List.not_mem_nil
  · exact absurd h List.not_mem_nil

theorem length_hopesFor_le (g : Augmented) (next : Option Symbol) :
    (g.hopesFor next).length ≤ g.productions.size := by
  unfold hopesFor
  split
  · split
    · simp only [numbersOf, List.length_map]
      exact Nat.le_trans (List.length_filter_le _ _) (by simp)
    · simp
  · simp

/-- **A round lowers the work that is left.** -/
theorem work_lt (g : Augmented) (found rest : List SignedItem) (i : SignedItem)
    (next : Option Symbol) :
    work g ((g.hopesFor next).foldl offer ⟨found, rest⟩) < work g ⟨found, i :: rest⟩ := by
  obtain ⟨fresh, hfold, hlength, hfresh⟩ := exists_foldl_offer (g.hopesFor next) ⟨found, rest⟩
  have hsize := Nat.le_trans hlength (length_hopesFor_le g next)
  rw [hfold]
  simp only [work, List.length_append, List.length_cons]
  by_cases hne : fresh = []
  · simp [hne]
  · obtain ⟨j, hj⟩ := List.exists_mem_of_ne_nil _ hne
    obtain ⟨hasked, hnew⟩ := hfresh j hj
    obtain ⟨p, hp, rfl⟩ := exists_production_of_mem_hopesFor hasked
    have hlt : missing g (found ++ fresh) < missing g found := by
      refine countP_lt_countP (fun q hq => ?_) hp ?_ ?_
      · simp only [decide_eq_true_eq, List.map_append, List.mem_append, not_or] at hq ⊢
        exact hq.1
      · simpa using hnew
      · simpa using fun _ => ⟨_, hj, rfl⟩
    have hmul := Nat.mul_le_mul_right (g.productions.size + 1) hlt
    rw [Nat.succ_mul] at hmul
    omega

/-- **The loop**: as long as items wait, the first of them is asked, and what it hopes for is
offered. It fails at an unreadable item. -/
def run? (g : Augmented) : Worklist → Option (List SignedItem)
  | ⟨found, []⟩ => some found
  | ⟨found, i :: rest⟩ =>
    match g.nextSymbol? i with
    | none => none
    | some next => run? g ((g.hopesFor next).foldl offer ⟨found, rest⟩)
termination_by w => work g w
decreasing_by exact work_lt g found rest i next

end Worklist

/-- The closure of some items, in ascending order, if none of them is unreadable. -/
def closure? (g : Augmented) (items : List SignedItem) : Option (List SignedItem) :=
  ((items.foldl Worklist.offer {}).run? g).map Ascending.ofList

/-- The goto of some items over a symbol, if none of them is unreadable: those with the dot before
the symbol are moved over it and closed. -/
def goto? (g : Augmented) (items : List SignedItem) (s : Symbol) : Option (List SignedItem) := do
  let moved ← filter? (fun i => (g.nextSymbol? i).map fun next => decide (next = some s)) items
  g.closure? (moved.map SignedItem.advance)

end Augmented

end ShiftReduce

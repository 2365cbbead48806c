import ShiftReduce.Item.Signed
import ShiftReduce.Proofs.Grammar.Augmented
import ShiftReduce.Proofs.Item.Closure
import Std.Data.String.ToInt

/-!
# Reading items written by hand

When an item is unreadable can be told from its two numbers
(`ShiftReduce.Augmented.nextSymbol?_eq_none_iff`). The items of a grammar never are, and on them the
operations on items written by hand are the ones that the automaton is made with
(`ShiftReduce.Augmented.nextSymbol?_ofItem` and those after it).
-/

namespace ShiftReduce

namespace SignedItem

variable {i j : SignedItem}

instance : Std.Irrefl (α := SignedItem) (· < ·) where
  irrefl i h := by simp only [lt_iff] at h; omega

instance : Std.Antisymm (α := SignedItem) (· < ·) where
  antisymm i j h k := by simp only [lt_iff] at h k; omega

/-! ### Keys -/

theorem at_notMem_toString (n : ℤ) : '@' ∉ (toString n).toList := by
  have hnat : ∀ n : ℕ, '@' ∉ (toString n).toList := Item.notMem_toString (by decide)
  cases n with
  | ofNat n => exact hnat n
  | negSucc n =>
    intro h
    rcases List.mem_append.mp (String.toList_append ▸ h :
      '@' ∈ "-".toList ++ (toString (n + 1)).toList) with h | h
    · exact absurd h (by decide)
    · exact hnat _ h

/-- **An item has its own key.** -/
theorem key_injective : Function.Injective key := by
  intro i j h
  have hlist : (toString i.production).toList ++ '@' :: (toString i.dot).toList =
      (toString j.production).toList ++ '@' :: (toString j.dot).toList := by
    have hkeys := congrArg String.toList h
    simpa [key] using hkeys
  rw [List.append_cons_inj_of_notMem (at_notMem_toString _) (at_notMem_toString _)] at hlist
  obtain ⟨hproduction, -, hdot⟩ := hlist
  cases i
  cases j
  rw [mk.injEq]
  exact ⟨Int.repr_injective (String.toList_inj.mp hproduction),
    Int.repr_injective (String.toList_inj.mp hdot)⟩

theorem ofItem_lt_ofItem {i j : Item} : ofItem i < ofItem j ↔ i < j := by
  simp only [lt_iff, Item.lt_iff, ofItem]
  omega

end SignedItem

/-! ### Tests and values that may be missing -/

/-- A test that has an answer for each member of a list leaves some of them. -/
theorem exists_filter? {α : Type} {test : α → Option Bool} {l : List α}
    (h : ∀ a ∈ l, test a ≠ none) : ∃ l', filter? test l = some l' ∧ l' ⊆ l := by
  induction l with
  | nil => exact ⟨[], rfl, List.Subset.refl _⟩
  | cons a l ih =>
    obtain ⟨passes, hpasses⟩ := Option.ne_none_iff_exists'.mp (h a List.mem_cons_self)
    obtain ⟨l', hl', hsub⟩ := ih fun b hb => h b (List.mem_cons_of_mem _ hb)
    refine ⟨if passes then a :: l' else l', by simp [filter?, hpasses, hl'], ?_⟩
    split_ifs
    · exact List.cons_subset_cons a hsub
    · exact fun b hb => List.mem_cons_of_mem _ (hsub hb)

theorem filter?_map_ofItem {test : SignedItem → Option Bool} {passes : Item → Bool}
    {items : List Item} (h : ∀ i ∈ items, test (.ofItem i) = some (passes i)) :
    filter? test (items.map .ofItem) = some ((items.filter passes).map .ofItem) := by
  induction items with
  | nil => rfl
  | cons i items ih =>
    obtain ⟨hi, hitems⟩ := List.forall_mem_cons.mp h
    rw [List.map_cons, filter?, hi, ih hitems, List.filter_cons]
    cases passes i <;> rfl

theorem mapM_map_ofItem {β : Type} {read : SignedItem → Option β} {value : Item → β}
    {items : List Item} (h : ∀ i ∈ items, read (.ofItem i) = some (value i)) :
    (items.map .ofItem).mapM read = some (items.map value) := by
  induction items with
  | nil => rfl
  | cons i items ih =>
    obtain ⟨hi, hitems⟩ := List.forall_mem_cons.mp h
    rw [List.map_cons, List.mapM_cons, hi, ih hitems]
    rfl

/-! ### Positions -/

/-- A list has an entry exactly at the positions from minus its length on to its length. -/
theorem bind_signedIndex?_eq_none_iff {α : Type} {l : List α} {i : ℤ} :
    ((signedIndex? l.length i).bind fun k => l[k]?) = none ↔ i < -l.length ∨ l.length ≤ i := by
  unfold signedIndex?
  split_ifs
  · simp
    omega
  · simp
    omega
  · simp
    omega

namespace Augmented

variable {A : Augmented} {i : SignedItem} {p : Production}

theorem production?_eq_none_iff {number : ℤ} :
    A.production? number = none ↔ number < -A.productions.size ∨ A.productions.size ≤ number := by
  have h := bind_signedIndex?_eq_none_iff (l := A.productions.toList) (i := number)
  simpa [production?] using h

/-- **An item is unreadable** exactly if no production has its number, counted from either end, or
its dot stands further in front of the end than the production is long. -/
theorem nextSymbol?_eq_none_iff : A.nextSymbol? i = none ↔
    (i.production < -A.productions.size ∨ A.productions.size ≤ i.production) ∨
      ∃ p, A.production? i.production = some p ∧ i.dot < -p.rhs.length := by
  rw [← production?_eq_none_iff, nextSymbol?]
  cases h : A.production? i.production with
  | none => simp
  | some p =>
    rw [Option.bind_some]
    split_ifs with hdot
    · rw [Option.map_eq_none_iff, bind_signedIndex?_eq_none_iff]
      simp
      omega
    · simp
      omega

/-! ### Productions by their numbers -/

/-- A production is found under its number. -/
theorem production?_id (hp : p ∈ A.productions.toList) : A.production? p.id = some p := by
  obtain ⟨k, hk⟩ := List.mem_iff_getElem?.mp hp
  have hk' : A.productions[k]? = some p := by simpa using hk
  rw [A.id_eq k p hk', production?_natCast, hk']

theorem mem_numbersOf {X : Symbol} {n : ℤ} :
    n ∈ A.numbersOf X ↔ ∃ p ∈ A.productions.toList, p.lhs = X ∧ p.id = n := by
  simp [numbersOf, and_assoc]

/-- The numbers of the productions of a symbol are the ones that the automaton is made with. -/
theorem numbersOf_eq (A : Augmented) (X : Symbol) :
    A.numbersOf X = (A.productionsOf X).map fun k : ℕ => (k : ℤ) := by
  rw [numbersOf, productionsOf, List.map_map]
  refine List.map_congr_left fun p hp => ?_
  obtain ⟨k, hk⟩ := List.mem_iff_getElem?.mp (List.mem_filter.mp hp).1
  have hid := A.id_eq k p (by simpa using hk)
  simp [hid]

theorem mem_hopesFor {next : Option Symbol} {j : SignedItem} :
    j ∈ A.hopesFor next ↔ ∃ X p, next = some X ∧ X ∈ A.nonTerminals ∧ p ∈ A.productions.toList ∧
      p.lhs = X ∧ j = ⟨p.id, 0⟩ := by
  cases next with
  | none => simp [hopesFor]
  | some X =>
    by_cases hX : X ∈ A.nonTerminals
    · simp only [hopesFor, if_pos hX, List.mem_map, mem_numbersOf]
      constructor
      · rintro ⟨_, ⟨p, hp, hlhs, rfl⟩, rfl⟩
        exact ⟨X, p, rfl, hX, hp, hlhs, rfl⟩
      · rintro ⟨Y, p, hY, -, hp, hlhs, rfl⟩
        obtain rfl := Option.some.inj hY
        exact ⟨_, ⟨p, hp, hlhs, rfl⟩, rfl⟩
    · simp only [hopesFor, if_neg hX, List.not_mem_nil, false_iff]
      rintro ⟨Y, p, hY, hmem, -⟩
      exact hX (Option.some.inj hY ▸ hmem)

/-- What is hoped for can be read. -/
theorem nextSymbol?_ne_none_of_mem_hopesFor {next : Option Symbol} {j : SignedItem}
    (h : j ∈ A.hopesFor next) : A.nextSymbol? j ≠ none := by
  obtain ⟨_, p, -, -, hp, -, rfl⟩ := mem_hopesFor.mp h
  have hproduction := production?_id hp
  rw [ne_eq, nextSymbol?_eq_none_iff, ← production?_eq_none_iff]
  simp only [hproduction, reduceCtorEq, Option.some.injEq, false_or]
  rintro ⟨_, rfl, hdot⟩
  omega

/-! ### Items of the grammar -/

section OfItem

variable {k : Item} (hk : k.production < A.productions.size)
include hk

theorem production?_ofItem :
    A.production? (SignedItem.ofItem k).production = some A.productions[k.production] :=
  (production?_natCast A k.production).trans (Array.getElem?_eq_getElem hk)

theorem rhs_production : A.rhs k.production = A.productions[k.production].rhs :=
  rhs_eq (Array.getElem?_eq_getElem hk)

theorem nextSymbol?_ofItem : A.nextSymbol? (.ofItem k) = some (A.nextSymbol k) := by
  rw [nextSymbol?, production?_ofItem hk, Option.bind_some, nextSymbol, rhs_production hk]
  simp only [SignedItem.ofItem, Int.ofNat_lt, signedIndex?_natCast, Option.bind_some]
  split_ifs with hdot
  · rw [List.getElem?_eq_getElem hdot, Option.map_some]
  · rw [List.getElem?_eq_none (Nat.le_of_not_lt hdot)]

theorem isComplete?_ofItem : A.isComplete? (.ofItem k) = some (A.isComplete k) := by
  rw [isComplete?, production?_ofItem hk, Option.map_some, isComplete, rhs_production hk]
  simp [SignedItem.ofItem]

theorem itemText?_ofItem : A.itemText? (.ofItem k) = some (A.itemText k) := by
  rw [itemText?, production?_ofItem hk, Option.map_some, itemText, rhs_production hk,
    lhs_eq (Array.getElem?_eq_getElem hk)]
  simp [SignedItem.ofItem, insertionPlace]

end OfItem

theorem hopesFor_nextSymbol (A : Augmented) (k : Item) :
    A.hopesFor (A.nextSymbol k) = (A.asksFor k).map .ofItem := by
  unfold hopesFor asksFor
  cases A.nextSymbol k with
  | none => rfl
  | some X =>
    simp only [numbersOf_eq]
    split_ifs
    · rw [List.map_map, List.map_map]
      rfl
    · rfl

end Augmented

end ShiftReduce

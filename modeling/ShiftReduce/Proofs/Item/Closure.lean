import Mathlib.Data.List.Basic
import ShiftReduce.Item.Closure
import ShiftReduce.Proofs.Item.Signature

/-!
# What the closure and the goto of an item set hold

The closure is the least set that holds the given items and whatever its members ask for: it
holds both (`ShiftReduce.Augmented.subset_closure`,
`ShiftReduce.Augmented.closed_closure`), and what holds of the given items and passes from an
item to those it asks for holds of the whole closure (`ShiftReduce.Augmented.closure_induction`).

An item that is asked for has its dot at the start, so an item of a goto with the dot further on
was moved there from the item set before (`ShiftReduce.Augmented.succ_mem_goto`).
-/

namespace ShiftReduce

namespace Augmented

variable {A : Augmented}

/-! ### Items of the grammar -/

/-- The items of the grammar are those whose production it has and whose dot is not past the
end. -/
theorem mem_items {i : Item} :
    i ∈ A.items ↔ i.production < A.productions.size ∧ i.dot ≤ (A.rhs i.production).length := by
  simp only [items, List.mem_flatMap, List.mem_map, List.mem_range, Prod.exists,
    List.mem_zipIdx_iff_getElem?, Array.getElem?_toList]
  constructor
  · rintro ⟨p, k, hp, dot, hdot, rfl⟩
    have hrhs : A.rhs k = p.rhs := by simp [rhs, hp]
    refine ⟨(Array.getElem?_eq_some_iff.mp hp).1, ?_⟩
    rw [hrhs]
    exact Nat.lt_succ_iff.mp hdot
  · rintro ⟨hlt, hdot⟩
    have hp := Array.getElem?_eq_getElem hlt
    have hrhs : A.rhs i.production = A.productions[i.production].rhs := by simp [rhs, hp]
    rw [hrhs] at hdot
    exact ⟨_, i.production, hp, i.dot, Nat.lt_succ_iff.mpr hdot, rfl⟩

/-- A symbol behind the dot stands inside the right-hand side. -/
theorem dot_lt_of_nextSymbol {i : Item} {X : Symbol} (h : A.nextSymbol i = some X) :
    i.dot < (A.rhs i.production).length :=
  (List.getElem?_eq_some_iff.mp h).1

theorem advance_mem_items {i : Item} {X : Symbol} (h : A.nextSymbol i = some X)
    (hi : i.production < A.productions.size) : i.advance ∈ A.items :=
  mem_items.mpr ⟨hi, dot_lt_of_nextSymbol h⟩

/-- Before the dot stands one symbol more once it has moved. -/
theorem take_dot_succ {i : Item} {X : Symbol} (h : A.nextSymbol i = some X) :
    (A.rhs i.production).take (i.dot + 1) = (A.rhs i.production).take i.dot ++ [X] := by
  rw [List.take_add_one, show (A.rhs i.production)[i.dot]? = some X from h, Option.toList_some]

/-- Behind the dot stands the next symbol and then what is behind the dot once it has moved. -/
theorem drop_dot {i : Item} {X : Symbol} (h : A.nextSymbol i = some X) :
    (A.rhs i.production).drop i.dot = X :: (A.rhs i.production).drop (i.dot + 1) := by
  obtain ⟨hlt, hX⟩ := List.getElem?_eq_some_iff.mp h
  rw [List.drop_eq_getElem_cons hlt, hX]

/-- **An item asks for the productions of the non-terminal behind its dot**, each with the dot at
the start. -/
theorem mem_asksFor_iff {i j : Item} :
    j ∈ A.asksFor i ↔ ∃ X p, A.nextSymbol i = some X ∧ X ∈ A.nonTerminals ∧ j.dot = 0 ∧
      A.productions[j.production]? = some p ∧ p.lhs = X := by
  unfold asksFor
  constructor
  · intro h
    split at h
    · exact absurd h List.not_mem_nil
    next X hX =>
    split at h
    next hmem =>
      obtain ⟨k, hk, rfl⟩ := List.mem_map.mp h
      obtain ⟨p, hp, hlhs⟩ := mem_productionsOf.mp hk
      exact ⟨X, p, hX, hmem, rfl, hp, hlhs⟩
    next => exact absurd h List.not_mem_nil
  · rintro ⟨X, p, hX, hmem, hdot, hp, hlhs⟩
    simp only [hX, if_pos hmem]
    refine List.mem_map.mpr ⟨j.production, mem_productionsOf.mpr ⟨p, hp, hlhs⟩, ?_⟩
    cases j
    simp_all

theorem mem_items_of_mem_asksFor {i j : Item} (h : j ∈ A.asksFor i) : j ∈ A.items := by
  obtain ⟨hdot, hlt⟩ := mem_asksFor h
  exact mem_items.mpr ⟨hlt, by omega⟩

/-! ### Saturation -/

theorem subset_saturate (found pending : List Item) : found ⊆ A.saturate found pending := by
  fun_induction saturate A found pending with
  | case1 => exact List.Subset.refl _
  | case2 _ _ _ _ _ ih => exact ih
  | case3 found _ _ j fresh _ _ ih => exact fun i hi => ih (List.mem_append_left _ hi)

/-- **Saturation ends with a closed set**, if the items that are not pending have been asked. -/
theorem closed_saturate {found pending : List Item}
    (h : ∀ i ∈ found, i ∈ pending ∨ ∀ j ∈ A.asksFor i, j ∈ found) :
    ∀ i ∈ A.saturate found pending, ∀ j ∈ A.asksFor i, j ∈ A.saturate found pending := by
  fun_induction saturate A found pending with
  | case1 found =>
    intro i hi
    exact (h i hi).resolve_left List.not_mem_nil
  | case2 found i rest hnone _ ih =>
    refine ih fun k hk => ?_
    rcases h k hk with hpending | hasked
    · rcases List.mem_cons.mp hpending with rfl | hrest
      · refine Or.inr fun j hj => ?_
        by_contra hcon
        have hnew : j ∈ A.newlyAsked found k := List.mem_filter.mpr ⟨hj, by simpa using hcon⟩
        rw [hnone] at hnew
        exact absurd hnew List.not_mem_nil
      · exact Or.inl hrest
    · exact Or.inr hasked
  | case3 found i rest j fresh hnew _ ih =>
    refine ih fun k hk => ?_
    rcases List.mem_append.mp hk with hfound | hfresh
    · rcases h k hfound with hpending | hasked
      · rcases List.mem_cons.mp hpending with rfl | hrest
        · refine Or.inr fun l hl => ?_
          by_cases hmem : l ∈ found
          · exact List.mem_append_left _ hmem
          · refine List.mem_append_right _ ?_
            rw [← hnew]
            exact List.mem_filter.mpr ⟨hl, by simpa using hmem⟩
        · exact Or.inl (List.mem_append_left _ hrest)
      · exact Or.inr fun l hl => List.mem_append_left _ (hasked l hl)
    · exact Or.inl (List.mem_append_right _ hfresh)

/-- **Saturation adds nothing that is not asked for.** -/
theorem saturate_induction {motive : Item → Prop} {found pending : List Item}
    (hfound : ∀ i ∈ found, motive i) (hpending : pending ⊆ found)
    (hask : ∀ i j, motive i → j ∈ A.asksFor i → motive j) :
    ∀ i ∈ A.saturate found pending, motive i := by
  fun_induction saturate A found pending with
  | case1 => exact hfound
  | case2 _ _ _ _ _ ih => exact ih hfound fun k hk => hpending (List.mem_cons_of_mem _ hk)
  | case3 found i rest j fresh hnew _ ih =>
    refine ih (fun k hk => ?_) fun k hk => ?_
    · rcases List.mem_append.mp hk with hk | hk
      · exact hfound k hk
      · rw [← hnew] at hk
        exact hask i k (hfound i (hpending List.mem_cons_self)) (List.mem_filter.mp hk).1
    · rcases List.mem_append.mp hk with hk | hk
      · exact List.mem_append_left _ (hpending (List.mem_cons_of_mem _ hk))
      · exact List.mem_append_right _ hk

/-! ### The closure -/

section Closure

variable {items : List Item}

theorem pairwise_closure : (A.closure items).Pairwise (· < ·) :=
  Ascending.pairwise_ofList _

/-- The closure holds the given items. -/
theorem subset_closure : items ⊆ A.closure items := fun _ hi =>
  Ascending.mem_ofList.mpr (subset_saturate items items hi)

/-- **The closure holds whatever its members ask for.** -/
theorem closed_closure {i j : Item} (hi : i ∈ A.closure items) (hj : j ∈ A.asksFor i) :
    j ∈ A.closure items :=
  Ascending.mem_ofList.mpr
    (closed_saturate (fun _ hk => Or.inl hk) i (Ascending.mem_ofList.mp hi) j hj)

/-- **The closure is the least such set.** -/
theorem closure_induction {motive : Item → Prop} (hitems : ∀ i ∈ items, motive i)
    (hask : ∀ i j, motive i → j ∈ A.asksFor i → motive j) : ∀ i ∈ A.closure items, motive i :=
  fun i hi => saturate_induction hitems (List.Subset.refl _) hask i (Ascending.mem_ofList.mp hi)

/-- An item of the closure was given, or it was asked for by another one. -/
theorem closure_cases {i : Item} (hi : i ∈ A.closure items) :
    i ∈ items ∨ ∃ j ∈ A.closure items, i ∈ A.asksFor j := by
  have h : i ∈ A.closure items ∧ (i ∈ items ∨ ∃ j ∈ A.closure items, i ∈ A.asksFor j) :=
    closure_induction (motive := fun i => i ∈ A.closure items ∧
      (i ∈ items ∨ ∃ j ∈ A.closure items, i ∈ A.asksFor j))
      (fun k hk => ⟨subset_closure hk, Or.inl hk⟩)
      (fun k l hk hl => ⟨closed_closure hk.1 hl, Or.inr ⟨k, hk.1, hl⟩⟩) i hi
  exact h.2

theorem closure_subset_items (h : items ⊆ A.items) : A.closure items ⊆ A.items :=
  closure_induction (fun _ hi => h hi) fun _ _ _ hj => mem_items_of_mem_asksFor hj

/-! ### The goto -/

variable {X : Symbol} {p d : ℕ}

theorem mem_moved {j : Item} :
    j ∈ A.moved items X ↔ ∃ i ∈ items, A.nextSymbol i = some X ∧ j = i.advance := by
  simp only [moved, List.mem_map, List.mem_filter, decide_eq_true_eq]
  constructor
  · rintro ⟨i, ⟨hi, hX⟩, rfl⟩
    exact ⟨i, hi, hX, rfl⟩
  · rintro ⟨i, hi, hX, rfl⟩
    exact ⟨i, ⟨hi, hX⟩, rfl⟩

theorem goto_subset_items (h : items ⊆ A.items) : A.goto items X ⊆ A.items := by
  refine closure_subset_items fun j hj => ?_
  obtain ⟨i, hi, hX, rfl⟩ := mem_moved.mp hj
  exact advance_mem_items hX (mem_items.mp (h hi)).1

/-- **An item of a goto with the dot further on was moved there** over the symbol. -/
theorem succ_mem_goto : (⟨p, d + 1⟩ : Item) ∈ A.goto items X ↔
    (⟨p, d⟩ : Item) ∈ items ∧ A.nextSymbol ⟨p, d⟩ = some X := by
  constructor
  · intro h
    rcases closure_cases h with hgiven | ⟨i, -, hasked⟩
    · obtain ⟨⟨p', d'⟩, hi, hX, hadv⟩ := mem_moved.mp hgiven
      obtain ⟨rfl, rfl⟩ : p = p' ∧ d = d' := by simpa [Item.advance] using hadv
      exact ⟨hi, hX⟩
    · exact absurd (mem_asksFor hasked).1 (Nat.succ_ne_zero d)
  · rintro ⟨hi, hX⟩
    exact subset_closure (mem_moved.mpr ⟨_, hi, hX, rfl⟩)

end Closure

/-! ### Symbols behind a dot -/

theorem mem_symbolsAfterDot {items : List Item} {X : Symbol} :
    X ∈ A.symbolsAfterDot items ↔ ∃ i ∈ items, A.nextSymbol i = some X := by
  simp [symbolsAfterDot, List.mem_eraseDups]

end Augmented

end ShiftReduce

import Mathlib.Data.List.Nodup
import Mathlib.Order.Bounds.Basic
import ShiftReduce.Proofs.Item.Signed

/-!
# The closure is a closure operator

The closure of some items is found by a loop that takes up what is hoped for until nothing new is
(`ShiftReduce.Augmented.Worklist.run?`). It fails exactly if one of the given items is unreadable,
since what is hoped for never is; and otherwise it ends with the least set that holds the given
items and whatever its members hope for (`ShiftReduce.Augmented.closure?_isLeast`). So the closure
depends on nothing but what is given, closing once more adds nothing, and more items have a greater
closure.

On the items of a grammar this is the closure that the automaton is made with
(`ShiftReduce.Augmented.closure?_map_ofItem`), and with it the goto
(`ShiftReduce.Augmented.goto?_map_ofItem`).
-/

namespace ShiftReduce

namespace Augmented

variable {A : Augmented} {items others closed greater asked : List SignedItem} {w : Worklist}
  {i j : SignedItem}

/-- **A set is closed** if it holds, with the dot at the start, every production of a non-terminal
behind the dot of one of its items. -/
def ClosedSet (A : Augmented) (s : Set SignedItem) : Prop :=
  ∀ i ∈ s, ∀ X ∈ A.nonTerminals, A.nextSymbol? i = some (some X) →
    ∀ p ∈ A.productions.toList, p.lhs = X → (⟨p.id, 0⟩ : SignedItem) ∈ s

/-- A set is closed exactly if it holds what its items hope for. -/
theorem closedSet_iff {s : Set SignedItem} :
    A.ClosedSet s ↔
      ∀ i ∈ s, ∀ next, A.nextSymbol? i = some next → ∀ j ∈ A.hopesFor next, j ∈ s := by
  constructor
  · intro h i hi next hnext j hj
    obtain ⟨X, p, rfl, hX, hp, hlhs, rfl⟩ := mem_hopesFor.mp hj
    exact h i hi X hX hnext p hp hlhs
  · intro h i hi X hX hnext p hp hlhs
    exact h i hi _ hnext _ (mem_hopesFor.mpr ⟨X, p, rfl, hX, hp, hlhs, rfl⟩)

/-! ### The loop -/

namespace Worklist

/-- An item is known by its key. -/
theorem offer_eq (w : Worklist) (i : SignedItem) :
    w.offer i = if i ∈ w.found then w else ⟨w.found ++ [i], w.pending ++ [i]⟩ := by
  simp only [offer, List.mem_map_of_injective SignedItem.key_injective]

theorem mem_found_foldl_offer :
    j ∈ (asked.foldl offer w).found ↔ j ∈ w.found ∨ j ∈ asked := by
  induction asked generalizing w with
  | nil => simp
  | cons i asked ih =>
    rw [List.foldl_cons, ih, offer_eq, List.mem_cons]
    split_ifs with hi
    · constructor
      · exact Or.imp_right .inr
      · rintro (h | rfl | h)
        · exact .inl h
        · exact .inl hi
        · exact .inr h
    · simp [or_assoc]

/-- What waits after some items were offered did so before, or is one of them. -/
theorem mem_pending_foldl_offer (h : j ∈ (asked.foldl offer w).pending) :
    j ∈ w.pending ∨ j ∈ asked := by
  induction asked generalizing w with
  | nil => exact .inl h
  | cons i asked ih =>
    rw [List.foldl_cons, offer_eq] at h
    have hcases := ih h
    split_ifs at hcases with hi
    · exact hcases.imp_right (List.mem_cons_of_mem _)
    · simp only [List.mem_append, List.mem_singleton, or_assoc] at hcases
      rwa [List.mem_cons]

/-- What waits goes on waiting, and what was not there before waits from now on. -/
theorem mem_pending_of_mem_found (h : j ∈ (asked.foldl offer w).found) :
    j ∈ w.found ∧ (j ∈ w.pending → j ∈ (asked.foldl offer w).pending) ∨
      j ∈ (asked.foldl offer w).pending := by
  obtain ⟨fresh, hfold, -⟩ := exists_foldl_offer asked w
  rw [hfold] at h ⊢
  rcases List.mem_append.mp h with h | h
  · exact .inl ⟨h, fun hpending => List.mem_append_left _ hpending⟩
  · exact .inr (List.mem_append_right _ h)

/-- **The loop fails exactly if an unreadable item waits.** -/
theorem run?_eq_none_iff : run? A w = none ↔ ∃ i ∈ w.pending, A.nextSymbol? i = none := by
  fun_induction run? A w with
  | case1 => simp
  | case2 found i rest hnext => simpa using .inl hnext
  | case3 found i rest next hnext ih =>
    rw [ih]
    constructor
    · -- nothing that is hoped for is unreadable, so the item waited before
      rintro ⟨j, hj, hnone⟩
      rcases mem_pending_foldl_offer hj with hj | hj
      · exact ⟨j, List.mem_cons_of_mem _ hj, hnone⟩
      · exact absurd hnone (nextSymbol?_ne_none_of_mem_hopesFor hj)
    · rintro ⟨j, hj, hnone⟩
      rcases List.mem_cons.mp hj with rfl | hj
      · exact absurd (hnext.symm.trans hnone) (by simp)
      · obtain ⟨fresh, hfold, -⟩ := exists_foldl_offer (A.hopesFor next) ⟨found, rest⟩
        exact ⟨j, by rw [hfold]; exact List.mem_append_left _ hj, hnone⟩

/-- The loop loses nothing that was taken up. -/
theorem found_subset_of_run? (h : run? A w = some closed) : w.found ⊆ closed := by
  fun_induction run? A w with
  | case1 => exact (Option.some.inj h).symm ▸ List.Subset.refl _
  | case2 => exact absurd h (by simp)
  | case3 found i rest next hnext ih =>
    exact fun j hj => ih h (mem_found_foldl_offer.mpr (.inl hj))

/-- An item that was taken up waits to be asked, or what it hopes for was taken up. -/
def IsFair (A : Augmented) (w : Worklist) : Prop :=
  ∀ i ∈ w.found, i ∈ w.pending ∨
    ∀ next, A.nextSymbol? i = some next → A.hopesFor next ⊆ w.found

/-- **The loop ends with a closed set.** -/
theorem closed_of_run? (hfair : w.IsFair A) (h : run? A w = some closed) :
    A.ClosedSet {i | i ∈ closed} := by
  rw [closedSet_iff]
  fun_induction run? A w with
  | case1 found =>
    obtain rfl := Option.some.inj h
    intro i hi next hnext j hj
    exact (hfair i hi).resolve_left List.not_mem_nil next hnext hj
  | case2 => exact absurd h (by simp)
  | case3 found i rest next hnext ih =>
    -- the item that was asked has had its hopes taken up; no other item has lost anything
    refine ih (fun j hj => ?_) h
    have hoffered : A.hopesFor next ⊆ ((A.hopesFor next).foldl offer ⟨found, rest⟩).found :=
      fun k hk => mem_found_foldl_offer.mpr (.inr hk)
    rcases mem_pending_of_mem_found hj with ⟨hfound, hpending⟩ | hpending
    · rcases hfair j hfound with hwaits | hasked
      · rcases List.mem_cons.mp hwaits with rfl | hrest
        · refine .inr fun next' hnext' => ?_
          obtain rfl := Option.some.inj (hnext.symm.trans hnext')
          exact hoffered
        · exact .inl (hpending hrest)
      · exact .inr fun next' hnext' k hk =>
          mem_found_foldl_offer.mpr (.inl (hasked next' hnext' hk))
    · exact .inl hpending

/-- **The loop takes up nothing but what is hoped for.** -/
theorem run?_subset {s : Set SignedItem} (hs : A.ClosedSet s) (hfound : ∀ i ∈ w.found, i ∈ s)
    (hpending : w.pending ⊆ w.found) (h : run? A w = some closed) : ∀ i ∈ closed, i ∈ s := by
  rw [closedSet_iff] at hs
  fun_induction run? A w with
  | case1 =>
    obtain rfl := Option.some.inj h
    exact hfound
  | case2 => exact absurd h (by simp)
  | case3 found i rest next hnext ih =>
    refine ih (fun j hj => ?_) (fun j hj => ?_) h
    · rcases mem_found_foldl_offer.mp hj with hj | hj
      · exact hfound j hj
      · exact hs i (hfound i (hpending List.mem_cons_self)) next hnext j hj
    · exact mem_found_foldl_offer.mpr ((mem_pending_foldl_offer hj).imp_left fun hj =>
        hpending (List.mem_cons_of_mem _ hj))

/-- To begin with, what is taken up are the given items, and all of them wait. -/
theorem foldl_offer_nil (items : List SignedItem) :
    ∃ fresh, items.foldl offer {} = ⟨fresh, fresh⟩ ∧ ∀ i, i ∈ fresh ↔ i ∈ items := by
  obtain ⟨fresh, hfold, -⟩ := exists_foldl_offer items {}
  refine ⟨fresh, hfold, fun i => ?_⟩
  have hmem : i ∈ (items.foldl offer {}).found ↔ i ∈ ({} : Worklist).found ∨ i ∈ items :=
    mem_found_foldl_offer
  rw [hfold] at hmem
  simpa using hmem

end Worklist

/-! ### The closure -/

/-- **The closure of some items fails exactly if one of them is unreadable.** -/
theorem closure?_eq_none_iff : A.closure? items = none ↔ ∃ i ∈ items, A.nextSymbol? i = none := by
  obtain ⟨fresh, hfold, hmem⟩ := Worklist.foldl_offer_nil items
  rw [closure?, hfold, Option.map_eq_none_iff, Worklist.run?_eq_none_iff]
  simp only [hmem]

theorem pairwise_of_closure? (h : A.closure? items = some closed) : closed.Pairwise (· < ·) := by
  obtain ⟨l, -, rfl⟩ := Option.map_eq_some_iff.mp h
  exact Ascending.pairwise_ofList l

/-- **The closure is the least closed set** that holds the given items. -/
theorem isLeast_closure? (h : A.closure? items = some closed) :
    IsLeast {s : Set SignedItem | (∀ i ∈ items, i ∈ s) ∧ A.ClosedSet s} {i | i ∈ closed} := by
  obtain ⟨fresh, hfold, hmem⟩ := Worklist.foldl_offer_nil items
  rw [closure?, hfold] at h
  obtain ⟨l, hl, rfl⟩ := Option.map_eq_some_iff.mp h
  have hset : {i | i ∈ Ascending.ofList l} = {i | i ∈ l} := Set.ext fun _ => Ascending.mem_ofList
  rw [hset]
  refine ⟨⟨fun i hi => ?_, Worklist.closed_of_run? (fun i hi => .inl hi) hl⟩, ?_⟩
  · exact Worklist.found_subset_of_run? hl ((hmem i).mpr hi)
  · rintro s ⟨hitems, hs⟩ i hi
    exact Worklist.run?_subset hs (fun j hj => hitems j ((hmem j).mp hj)) (List.Subset.refl _) hl
      i hi

theorem closure?_mono (hsub : items ⊆ others) (h : A.closure? items = some closed)
    (hothers : A.closure? others = some greater) : closed ⊆ greater := by
  obtain ⟨hgiven, hclosed⟩ := (isLeast_closure? hothers).1
  exact (isLeast_closure? h).2 ⟨fun i hi => hgiven i (hsub hi), hclosed⟩

theorem exists_closure?_of_subset (hsub : others ⊆ items) (h : A.closure? items = some closed) :
    ∃ less, A.closure? others = some less := by
  refine Option.ne_none_iff_exists'.mp fun hnone => ?_
  obtain ⟨i, hi, hunreadable⟩ := closure?_eq_none_iff.mp hnone
  have hitems := closure?_eq_none_iff.mpr ⟨i, hsub hi, hunreadable⟩
  exact absurd (h.symm.trans hitems) (by simp)

/-- **The closure depends on nothing but what is given.** -/
theorem closure?_congr (hmem : ∀ i, i ∈ others ↔ i ∈ items) (h : A.closure? items = some closed) :
    A.closure? others = some closed := by
  obtain ⟨closed', h'⟩ := exists_closure?_of_subset (fun i hi => (hmem i).mp hi) h
  rw [h', (pairwise_of_closure? h').eq_of_mem_iff (pairwise_of_closure? h) fun i => ?_]
  exact ⟨fun hi => closure?_mono (fun j hj => (hmem j).mp hj) h' h hi,
    fun hi => closure?_mono (fun j hj => (hmem j).mpr hj) h h' hi⟩

/-- Nothing in a closure is unreadable. -/
theorem nextSymbol?_ne_none_of_mem (h : A.closure? items = some closed) (hi : i ∈ closed) :
    A.nextSymbol? i ≠ none := by
  have hitems : ∀ j ∈ items, A.nextSymbol? j ≠ none := fun j hj hnone =>
    absurd (h.symm.trans (closure?_eq_none_iff.mpr ⟨j, hj, hnone⟩)) (by simp)
  have hclosed : A.ClosedSet {j | A.nextSymbol? j ≠ none} := closedSet_iff.mpr
    fun _ _ _ _ _ hj => nextSymbol?_ne_none_of_mem_hopesFor hj
  exact (isLeast_closure? h).2 ⟨hitems, hclosed⟩ hi

/-- **Closing once more adds nothing.** -/
theorem closure?_closed (h : A.closure? items = some closed) :
    A.closure? closed = some closed := by
  obtain ⟨closed', h'⟩ : ∃ closed', A.closure? closed = some closed' := by
    refine Option.ne_none_iff_exists'.mp fun hnone => ?_
    obtain ⟨i, hi, hunreadable⟩ := closure?_eq_none_iff.mp hnone
    exact nextSymbol?_ne_none_of_mem h hi hunreadable
  rw [h', (pairwise_of_closure? h').eq_of_mem_iff (pairwise_of_closure? h) fun i => ?_]
  refine ⟨fun hi => ?_, fun hi => (isLeast_closure? h').1.1 i hi⟩
  exact (isLeast_closure? h').2 ⟨fun j hj => hj, (isLeast_closure? h).1.2⟩ hi

/-! ### Items of the grammar -/

/-- **On items of the grammar this is the closure that the automaton is made with.** -/
theorem closure?_map_ofItem {items : List Item}
    (hitems : ∀ i ∈ items, i.production < A.productions.size) :
    A.closure? (items.map .ofItem) = some ((A.closure items).map .ofItem) := by
  have hnone : ∀ i ∈ items.map SignedItem.ofItem, A.nextSymbol? i ≠ none := by
    intro i hi
    obtain ⟨k, hk, rfl⟩ := List.mem_map.mp hi
    simp [nextSymbol?_ofItem (hitems k hk)]
  obtain ⟨closed, hclosed⟩ := Option.ne_none_iff_exists'.mp
    (show A.closure? (items.map .ofItem) ≠ none from fun h => by
      obtain ⟨i, hi, hunreadable⟩ := closure?_eq_none_iff.mp h
      exact hnone i hi hunreadable)
  obtain ⟨⟨hgiven, hclosedSet⟩, hleast⟩ := isLeast_closure? hclosed
  rw [closedSet_iff] at hclosedSet
  have hsize : ∀ i ∈ A.closure items, i.production < A.productions.size :=
    closure_induction hitems fun _ _ _ hj => (mem_asksFor hj).2
  rw [hclosed]
  congr 1
  refine (pairwise_of_closure? hclosed).eq_of_mem_iff ?_ fun i => ⟨fun hi => ?_, fun hi => ?_⟩
  · exact pairwise_closure.map _ fun _ _ h => SignedItem.ofItem_lt_ofItem.mpr h
  · -- the items that the automaton is made with are a closed set
    have hmade : {j | j ∈ (A.closure items).map .ofItem} ∈
        {s : Set SignedItem | (∀ i ∈ items.map .ofItem, i ∈ s) ∧ A.ClosedSet s} := by
      refine ⟨fun j hj => ?_, closedSet_iff.mpr ?_⟩
      · obtain ⟨k, hk, rfl⟩ := List.mem_map.mp hj
        exact List.mem_map_of_mem (subset_closure hk)
      rintro j hj next hnext l hl
      obtain ⟨k, hk, rfl⟩ := List.mem_map.mp hj
      obtain rfl := Option.some.inj ((nextSymbol?_ofItem (hsize k hk)).symm.trans hnext)
      rw [hopesFor_nextSymbol] at hl
      obtain ⟨m, hm, rfl⟩ := List.mem_map.mp hl
      exact List.mem_map_of_mem (closed_closure hk hm)
    exact hleast hmade hi
  · obtain ⟨k, hk, rfl⟩ := List.mem_map.mp hi
    have hboth : k.production < A.productions.size ∧ SignedItem.ofItem k ∈ closed :=
      closure_induction (motive := fun k => k.production < A.productions.size ∧ .ofItem k ∈ closed)
        (fun k hk => ⟨hitems k hk, hgiven _ (List.mem_map_of_mem hk)⟩)
        (fun k l hk hl => ⟨(mem_asksFor hl).2, hclosedSet _ hk.2 _ (nextSymbol?_ofItem hk.1) _
          (hopesFor_nextSymbol A k ▸ List.mem_map_of_mem hl)⟩) k hk
    exact hboth.2

/-- On items of the grammar this is the goto that the automaton is made with. -/
theorem goto?_map_ofItem {items : List Item}
    (hitems : ∀ i ∈ items, i.production < A.productions.size) (X : Symbol) :
    A.goto? (items.map .ofItem) X = some ((A.goto items X).map .ofItem) := by
  have hmoved : filter? (fun i => (A.nextSymbol? i).map fun next => decide (next = some X))
      (items.map .ofItem) = some ((items.filter (A.nextSymbol · = some X)).map .ofItem) :=
    filter?_map_ofItem fun i hi => by rw [nextSymbol?_ofItem (hitems i hi), Option.map_some]
  have hadvance : ((items.filter (A.nextSymbol · = some X)).map SignedItem.ofItem).map
      SignedItem.advance = (A.moved items X).map SignedItem.ofItem := by
    rw [moved, List.map_map, List.map_map]
    rfl
  have hsize : ∀ i ∈ A.moved items X, i.production < A.productions.size := by
    intro i hi
    obtain ⟨k, hk, rfl⟩ := List.mem_map.mp hi
    exact hitems k (List.mem_filter.mp hk).1
  rw [goto?, hmoved, goto, ← closure?_map_ofItem hsize, ← hadvance]
  rfl

/-- And these are the symbols that the automaton is made with. -/
theorem symbolsAfterDot?_map_ofItem {items : List Item}
    (hitems : ∀ i ∈ items, i.production < A.productions.size) :
    A.symbolsAfterDot? (items.map .ofItem) = some (A.symbolsAfterDot items) := by
  rw [symbolsAfterDot?, mapM_map_ofItem fun i hi => nextSymbol?_ofItem (hitems i hi),
    Option.map_some, List.filterMap_map, symbolsAfterDot]
  rfl

/-- **The closure of some items** is found unless one of them is unreadable: unless no production
has its number, counted from either end, or its dot stands further in front of the end than the
production is long. It ascends strictly, it is the least closed set that holds the items, closing it
once more adds nothing, and it depends only on which items are given and grows with them. -/
theorem closure?_isLeast (A : Augmented) (items : List SignedItem) :
    (A.closure? items = none ↔ ∃ i ∈ items,
      (i.production < -A.productions.size ∨ A.productions.size ≤ i.production) ∨
        ∃ p, A.production? i.production = some p ∧ i.dot < -p.rhs.length) ∧
    ∀ closed, A.closure? items = some closed →
      closed.Pairwise (· < ·) ∧
      IsLeast {s : Set SignedItem | (∀ i ∈ items, i ∈ s) ∧ A.ClosedSet s} {i | i ∈ closed} ∧
      (∀ others, (∀ i, i ∈ others ↔ i ∈ items) → A.closure? others = some closed) ∧
      A.closure? closed = some closed ∧
      ∀ others greater, items ⊆ others → A.closure? others = some greater → closed ⊆ greater := by
  refine ⟨?_, fun closed h => ⟨pairwise_of_closure? h, isLeast_closure? h,
    fun others hmem => closure?_congr hmem h, closure?_closed h,
    fun others greater hsub hothers => closure?_mono hsub h hothers⟩⟩
  rw [closure?_eq_none_iff]
  simp only [nextSymbol?_eq_none_iff]

theorem closure?_isLeast_brackets :
    brackets.closure? [⟨2, 7⟩, ⟨1, 1⟩, ⟨-4, 1⟩, ⟨1, 1⟩] =
        some [⟨-4, 1⟩, ⟨1, 0⟩, ⟨1, 1⟩, ⟨2, 0⟩, ⟨2, 7⟩] ∧
      brackets.closure? [⟨1, 1⟩, ⟨4, 0⟩] = none ∧
      IsLeast {s : Set SignedItem | (∀ i ∈ [⟨2, 7⟩, ⟨1, 1⟩, ⟨-4, 1⟩, ⟨1, 1⟩], i ∈ s) ∧
          brackets.ClosedSet s} {i | i ∈ [⟨-4, 1⟩, ⟨1, 0⟩, ⟨1, 1⟩, ⟨2, 0⟩, ⟨2, 7⟩]} ∧
      brackets.closure? [⟨-4, 1⟩, ⟨1, 1⟩, ⟨2, 7⟩] =
        some [⟨-4, 1⟩, ⟨1, 0⟩, ⟨1, 1⟩, ⟨2, 0⟩, ⟨2, 7⟩] ∧
      ([⟨-4, 1⟩, ⟨1, 0⟩, ⟨1, 1⟩, ⟨2, 0⟩, ⟨2, 7⟩] : List SignedItem) ⊆
        [⟨-4, 1⟩, ⟨1, 0⟩, ⟨1, 1⟩, ⟨1, 2⟩, ⟨2, 0⟩, ⟨2, 7⟩, ⟨3, 0⟩] := by
  have hclosed : brackets.closure? [⟨2, 7⟩, ⟨1, 1⟩, ⟨-4, 1⟩, ⟨1, 1⟩] =
      some [⟨-4, 1⟩, ⟨1, 0⟩, ⟨1, 1⟩, ⟨2, 0⟩, ⟨2, 7⟩] := by decide +kernel
  obtain ⟨-, h⟩ := closure?_isLeast brackets [⟨2, 7⟩, ⟨1, 1⟩, ⟨-4, 1⟩, ⟨1, 1⟩]
  obtain ⟨-, hleast, hcongr, -, hmono⟩ := h _ hclosed
  obtain ⟨hnone, -⟩ := closure?_isLeast brackets [⟨1, 1⟩, ⟨4, 0⟩]
  refine ⟨hclosed, hnone.mpr ⟨⟨4, 0⟩, by simp, .inl (by decide)⟩, hleast, hcongr _ fun i => ?_,
    hmono [⟨1, 2⟩, ⟨2, 7⟩, ⟨1, 1⟩, ⟨-4, 1⟩] _ (by decide) (by decide +kernel)⟩
  simp only [List.mem_cons, List.not_mem_nil, or_false]
  grind

/-- Numbers below zero decide otherwise than by being out of range: an item of the last production,
which is empty, is unreadable if its dot stands in front of it, and the number -1 is no error. -/
theorem closure?_negative_numbers :
    ¬(brackets.closure? [⟨3, -1⟩] = none ↔
        ∃ i ∈ ([⟨3, -1⟩] : List SignedItem), brackets.production? i.production = none) ∧
      ¬(brackets.closure? [⟨-1, 0⟩] = none ↔
        ∃ i ∈ ([⟨-1, 0⟩] : List SignedItem), i.production < 0 ∨ 4 ≤ i.production) := by
  have hdot : brackets.closure? [⟨3, -1⟩] = none := by decide +kernel
  have hproduction : brackets.closure? [⟨-1, 0⟩] = some [⟨-1, 0⟩] := by decide +kernel
  constructor
  · rw [hdot]
    simp [production?_eq_none_iff, brackets]
  · rw [hproduction]
    simp

end Augmented

end ShiftReduce

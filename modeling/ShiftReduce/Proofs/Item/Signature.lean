import Mathlib.Data.List.Sort
import ShiftReduce.Item.Basic

/-!
# Signatures identify item sets

A signature is one text for a whole item set, so everything that is found by its signature rests
on the fact that no two sets share one (`ShiftReduce.Item.signature_eq_iff`). Three things could
get mixed up in such a text, and none does: a key holds one `@` between two runs of digits, the
bars that join the keys stand in no key, and the keys are put into an order that depends on the
set alone.
-/

namespace ShiftReduce

/-! ### Ascending lists and their members -/

namespace Ascending

variable {α : Type} [LT α] [DecidableLT α] [DecidableEq α]
  [Trans (α := α) (· < ·) (· < ·) (· < ·)] [Std.Trichotomous (α := α) (· < ·)]
  [Std.Irrefl (α := α) (· < ·)] [Std.Antisymm (α := α) (· < ·)]

/-- **A set has one ascending list.** -/
theorem ofList_eq_iff {l m : List α} : ofList l = ofList m ↔ ∀ x, x ∈ l ↔ x ∈ m := by
  constructor
  · intro h x
    rw [← mem_ofList (l := l), h, mem_ofList]
  · intro h
    refine (pairwise_ofList l).eq_of_mem_iff (pairwise_ofList m) fun x => ?_
    rw [mem_ofList, mem_ofList]
    exact h x

end Ascending

namespace Item

instance : Std.Irrefl (α := Item) (· < ·) where
  irrefl i h := by simp only [lt_iff] at h; omega

instance : Std.Antisymm (α := Item) (· < ·) where
  antisymm i j h k := by simp only [lt_iff] at h k; omega

/-! ### Keys -/

theorem toList_toString_injective : Function.Injective fun n : ℕ => (toString n).toList := by
  intro m n h
  have hdigits : Nat.toDigits 10 m = Nat.toDigits 10 n := by
    simpa [Nat.toString_eq_ofList_toDigits] using h
  have hvalue := congrArg (fun ds => Nat.ofDigitChars 10 ds 0) hdigits
  simpa using hvalue

theorem notMem_toString {c : Char} (hc : c.isDigit = false) (n : ℕ) : c ∉ (toString n).toList := by
  intro h
  rw [Nat.toString_eq_ofList_toDigits, String.toList_ofList] at h
  have hdigit := Nat.isDigit_of_mem_toDigits (by omega) (by omega) h
  rw [hc] at hdigit
  exact absurd hdigit (by simp)

theorem toList_key (i : Item) :
    i.key.toList = (toString i.production).toList ++ '@' :: (toString i.dot).toList := by
  simp [key]

/-- **An item has its own key.** -/
theorem key_injective : Function.Injective key := by
  intro i j h
  have hlist : i.key.toList = j.key.toList := congrArg String.toList h
  rw [toList_key, toList_key, List.append_cons_inj_of_notMem (notMem_toString (by decide) _)
    (notMem_toString (by decide) _)] at hlist
  obtain ⟨hproduction, -, hdot⟩ := hlist
  cases i
  cases j
  simp only [mk.injEq]
  exact ⟨toList_toString_injective hproduction, toList_toString_injective hdot⟩

theorem bar_notMem_key (i : Item) : '|' ∉ i.key.toList := by
  rw [toList_key]
  simp only [List.mem_append, List.mem_cons, not_or]
  exact ⟨notMem_toString (by decide) _, by decide, notMem_toString (by decide) _⟩

theorem key_ne_empty (i : Item) : i.key.toList ≠ [] := by
  simp [toList_key]

/-! ### Keys joined by bars -/

/-- Texts that hold no bar and are not empty can be read off the text that joins them by bars. -/
theorem intercalate_bar_inj {l m : List String} (hl : ∀ s ∈ l, '|' ∉ s.toList ∧ s.toList ≠ [])
    (hm : ∀ s ∈ m, '|' ∉ s.toList ∧ s.toList ≠ [])
    (h : "|".intercalate l = "|".intercalate m) : l = m := by
  have hlist :
      ['|'].intercalate (l.map String.toList) = ['|'].intercalate (m.map String.toList) := by
    have hchars := congrArg String.toList h
    simpa [String.toList_intercalate] using hchars
  -- only the empty list of texts is joined to the empty text
  have hnil : ∀ {k : List String}, (∀ s ∈ k, '|' ∉ s.toList ∧ s.toList ≠ []) →
      ['|'].intercalate (k.map String.toList) = [] → k = [] := by
    intro k hk he
    rcases k with _ | ⟨s, k⟩
    · rfl
    · have hs := (hk s (by simp)).2
      cases k with
      | nil => exact absurd (by simpa using he) hs
      | cons t k => simp [List.intercalate] at he
  rcases eq_or_ne l [] with rfl | hl0
  · exact (hnil hm hlist.symm).symm
  rcases eq_or_ne m [] with rfl | hm0
  · exact hnil hl hlist
  have hsplit := congrArg (List.splitOn '|') hlist
  rw [List.splitOn_intercalate, List.splitOn_intercalate] at hsplit
  · exact List.map_injective_iff.mpr (fun _ _ => String.toList_inj.mp) hsplit
  · intro s hs
    obtain ⟨t, ht, rfl⟩ := List.mem_map.mp hs
    exact (hm t ht).1
  · simpa using hm0
  · intro s hs
    obtain ⟨t, ht, rfl⟩ := List.mem_map.mp hs
    exact (hl t ht).1
  · simpa using hl0

/-! ### Signatures -/

/-- **Two lists of items have the same signature exactly if they hold the same items.** -/
theorem signature_eq_iff {items others : List Item} :
    signature items = signature others ↔ ∀ i, i ∈ items ↔ i ∈ others := by
  have hkeys : ∀ l : List Item, ∀ s ∈ Ascending.ofList (l.map key),
      '|' ∉ s.toList ∧ s.toList ≠ [] := by
    intro l s hs
    obtain ⟨i, -, rfl⟩ := List.mem_map.mp (Ascending.mem_ofList.mp hs)
    exact ⟨bar_notMem_key i, key_ne_empty i⟩
  have hmem : ∀ (l : List Item) (i : Item), i.key ∈ l.map key ↔ i ∈ l := fun l i =>
    List.mem_map_of_injective key_injective
  constructor
  · intro h i
    have hlists := intercalate_bar_inj (hkeys items) (hkeys others) h
    rw [← hmem items, ← hmem others]
    exact Ascending.ofList_eq_iff.mp hlists i.key
  · intro h
    have hlists : Ascending.ofList (items.map key) = Ascending.ofList (others.map key) := by
      refine Ascending.ofList_eq_iff.mpr fun s => ?_
      simp only [List.mem_map, h]
    rw [signature, signature, hlists]

/-- Ascending lists of items with the same signature are the same list. -/
theorem eq_of_signature_eq {items others : List Item} (hi : items.Pairwise (· < ·))
    (ho : others.Pairwise (· < ·)) (h : signature items = signature others) : items = others :=
  hi.eq_of_mem_iff ho (signature_eq_iff.mp h)

end Item

end ShiftReduce

import Mathlib.Data.List.Basic

/-!
# Texts that are put together

Texts with a separator between them are the first one, and the others each behind the separator
(`ShiftReduce.Text.toList_intercalate_cons`). A character that neither the separator nor any of the
texts holds is not in what is put together of them (`ShiftReduce.Text.avoids_intercalate`).
-/

namespace ShiftReduce.Text

/-- **A text that avoids some marks** holds none of them. -/
def Avoids (marks s : List Char) : Prop :=
  ∀ c ∈ s, c ∉ marks

-- the list is gone through: to go through all characters instead would be an instance as well
instance (marks s : List Char) : Decidable (Avoids marks s) :=
  List.decidableBAll (· ∉ marks) s

theorem notMem_append {c : Char} {s t : String} (hs : c ∉ s.toList) (ht : c ∉ t.toList) :
    c ∉ (s ++ t).toList := by
  rw [String.toList_append, List.mem_append, not_or]
  exact ⟨hs, ht⟩

/-- Texts put together: the first one, and the others each behind the separator. -/
theorem toList_intercalate_cons (sep first : String) (l : List String) :
    (sep.intercalate (first :: l)).toList =
      first.toList ++ l.flatMap fun s => sep.toList ++ s.toList := by
  induction l generalizing first with
  | nil => simp
  | cons second l ih =>
    rw [String.intercalate_cons_cons, String.toList_append, String.toList_append, ih,
      List.flatMap_cons, List.append_assoc, List.append_assoc]

theorem append_intercalate_cons (sep first : String) (l : List String) :
    sep ++ sep.intercalate (first :: l) = String.join ((first :: l).map (sep ++ ·)) := by
  rw [← String.toList_inj, String.toList_append, toList_intercalate_cons, String.toList_join,
    List.flatMap_map, List.flatMap_cons]
  simp

/-- Texts put together in two parts have a separator between them. -/
theorem intercalate_append (sep : String) {l l' : List String} (hl : l ≠ []) (hl' : l' ≠ []) :
    sep.intercalate (l ++ l') = sep.intercalate l ++ sep ++ sep.intercalate l' := by
  obtain ⟨first, l, rfl⟩ := List.exists_cons_of_ne_nil hl
  obtain ⟨second, l', rfl⟩ := List.exists_cons_of_ne_nil hl'
  rw [← String.toList_inj, List.cons_append, toList_intercalate_cons, String.toList_append,
    String.toList_append, toList_intercalate_cons, toList_intercalate_cons, List.flatMap_append,
    List.flatMap_cons]
  simp only [List.append_assoc]

/-- What the separator and all texts avoid is avoided by what is put together. -/
theorem avoids_intercalate {marks : List Char} {sep : String} {l : List String}
    (hsep : Avoids marks sep.toList) (hl : ∀ s ∈ l, Avoids marks s.toList) :
    Avoids marks (sep.intercalate l).toList := by
  rcases l with _ | ⟨first, l⟩
  · simp [Avoids]
  · obtain ⟨hfirst, hl⟩ := List.forall_mem_cons.mp hl
    intro c hc
    rw [toList_intercalate_cons, List.mem_append, List.mem_flatMap] at hc
    rcases hc with hc | ⟨s, hs, hc⟩
    · exact hfirst c hc
    · exact (List.mem_append.mp hc).elim (hsep c) (hl s hs c)

end ShiftReduce.Text

import Mathlib.Data.List.Induction
import Mathlib.Data.List.Nodup

/-!
# Lists by first occurrence

A list with repetitions is often shown with each member once, in the order in which the members
first occur (`ShiftReduce.FirstOccurrences`). Dropping repetitions gives such a list
(`ShiftReduce.firstOccurrences_eraseDups`), and it can be kept up to date while the list grows at
its end: a new member comes to the end of it, and one that has occurred before changes nothing.
-/

namespace ShiftReduce

variable {α : Type} [DecidableEq α] {l m : List α} {a : α}

/-- **A list of first occurrences**: it holds the members of another list in the order in which
they first occur there, which gives each of them one place. -/
structure FirstOccurrences (l m : List α) : Prop where
  /-- It holds the members of the list. -/
  mem_iff : ∀ a, a ∈ m ↔ a ∈ l
  /-- A member comes before those that first occur later. -/
  ordered : m.Pairwise fun a b => l.idxOf a < l.idxOf b

namespace FirstOccurrences

/-- Each member has one place. -/
theorem nodup (h : FirstOccurrences l m) : m.Nodup :=
  h.ordered.imp fun hlt he => absurd hlt (by simp [he])

/-- What stands behind the end of a list does not change where its members first occur. -/
theorem ordered_append (h : FirstOccurrences l m) (rest : List α) :
    m.Pairwise fun a b => (l ++ rest).idxOf a < (l ++ rest).idxOf b := by
  refine h.ordered.imp_of_mem fun ha hb hlt => ?_
  rwa [List.idxOf_append_of_mem ((h.mem_iff _).mp ha),
    List.idxOf_append_of_mem ((h.mem_iff _).mp hb)]

/-- A member that has occurred before changes nothing. -/
theorem append_of_mem (h : FirstOccurrences l m) (ha : a ∈ l) : FirstOccurrences (l ++ [a]) m := by
  refine ⟨fun b => ?_, h.ordered_append [a]⟩
  rw [h.mem_iff, List.mem_append, List.mem_singleton]
  exact ⟨Or.inl, fun hb => hb.elim id fun he => he ▸ ha⟩

/-- A new member comes to the end. -/
theorem append_of_notMem (h : FirstOccurrences l m) (ha : a ∉ l) :
    FirstOccurrences (l ++ [a]) (m ++ [a]) := by
  refine ⟨fun b => ?_, List.pairwise_append.mpr ⟨h.ordered_append [a], by simp, ?_⟩⟩
  · simp only [List.mem_append, h.mem_iff]
  · intro b hb c hc
    obtain rfl : c = a := List.mem_singleton.mp hc
    have hb' : b ∈ l := (h.mem_iff b).mp hb
    rw [List.idxOf_append_of_mem hb', List.idxOf_append_of_notMem ha]
    have := List.idxOf_lt_length_of_mem hb'
    omega

end FirstOccurrences

/-- One entry more comes to the end of the first occurrences if it is new. -/
theorem eraseDups_append_singleton (l : List α) (a : α) :
    (l ++ [a]).eraseDups = if a ∈ l then l.eraseDups else l.eraseDups ++ [a] := by
  rw [List.eraseDups_append]
  by_cases ha : a ∈ l <;> simp [List.removeAll, ha, List.eraseDups_cons]

/-- **Dropping repetitions leaves the first occurrences.** -/
theorem firstOccurrences_eraseDups (l : List α) : FirstOccurrences l l.eraseDups := by
  induction l using List.reverseRecOn with
  | nil => exact ⟨fun a => by simp, by simp⟩
  | append_singleton l a ih =>
    rw [eraseDups_append_singleton]
    split
    · next ha => exact ih.append_of_mem ha
    · next ha => exact ih.append_of_notMem ha

/-- Further occurrences of a member behind its first one leave the first occurrences as they are. -/
theorem eraseDups_append_cons_congr (front : List α) {rest rest' : List α}
    (h : rest.filter (· ≠ a) = rest'.filter (· ≠ a)) :
    (front ++ a :: rest).eraseDups = (front ++ a :: rest').eraseDups := by
  have hkept : ∀ l : List α, ((a :: l).removeAll front).eraseDups =
      if a ∈ front then ((l.filter (· ≠ a)).filter (· ∉ front)).eraseDups
      else a :: ((l.filter (· ≠ a)).filter (· ∉ front)).eraseDups := by
    intro l
    by_cases ha : a ∈ front
    · have hfilter : l.filter (· ∉ front) = (l.filter (· ≠ a)).filter (· ∉ front) := by
        rw [List.filter_filter]
        refine List.filter_congr fun b _ => ?_
        by_cases hb : b = a
        · simp [hb, ha]
        · simp [hb]
      rw [if_pos ha, ← hfilter]
      simp [List.removeAll, ha]
    · rw [if_neg ha, List.filter_filter]
      simp [List.removeAll, ha, List.eraseDups_cons, List.filter_filter, beq_eq_decide,
        Bool.and_comm]
  rw [List.eraseDups_append, List.eraseDups_append, hkept, hkept, h]

end ShiftReduce

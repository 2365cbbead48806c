import ShiftReduce.Text.Replacement
import Mathlib.Data.List.Basic

/-!
# Replacements in turn and at once

Characters may be replaced one after the other without harm as long as none that is replaced later
stands in what was put in before. Then the result is the same as if each character had been looked
up on its own (`ShiftReduce.Text.replaceInTurn_eq`).
-/

namespace ShiftReduce.Text

variable {c : Char} {s : List Char} {table : List (Char × String)}

/-- What a table has for a character, which is the character itself if it has nothing. -/
def replacementOf (table : List (Char × String)) (c : Char) : List Char :=
  ((table.lookup c).map String.toList).getD [c]

/-- One replacement in a text that another one may have been made in before. -/
def replaceEntry (s : List Char) (e : Char × String) : List Char :=
  replaceChar e.1 e.2 s

theorem replaceChar_append (c : Char) (replacement : String) (s t : List Char) :
    replaceChar c replacement (s ++ t) =
      replaceChar c replacement s ++ replaceChar c replacement t :=
  List.flatMap_append

theorem foldl_replaceEntry_append (table : List (Char × String)) (s t : List Char) :
    table.foldl replaceEntry (s ++ t) =
      table.foldl replaceEntry s ++ table.foldl replaceEntry t := by
  induction table generalizing s t with
  | nil => rfl
  | cons e table ih =>
    rw [List.foldl_cons, replaceEntry, replaceChar_append, ih]
    rfl

/-- Replacements in turn go on in every character on its own. -/
theorem foldl_replaceEntry_eq_flatMap (table : List (Char × String)) (s : List Char) :
    table.foldl replaceEntry s = s.flatMap fun c => table.foldl replaceEntry [c] := by
  induction s with
  | nil =>
    induction table with
    | nil => rfl
    | cons e table ih => exact ih
  | cons c s ih =>
    rw [← List.singleton_append, foldl_replaceEntry_append, ih]
    rfl

/-- A text is left as it is, if no character that is replaced stands in it. -/
theorem foldl_replaceEntry_eq_self (h : ∀ e ∈ table, e.1 ∉ s) :
    table.foldl replaceEntry s = s := by
  induction table with
  | nil => rfl
  | cons e table ih =>
    obtain ⟨he, htable⟩ := List.forall_mem_cons.mp h
    have hkept : replaceEntry s e = s.flatMap fun d => [d] := by
      refine List.flatMap_congr fun d hd => if_neg ?_
      rintro rfl
      exact he hd
    rw [List.foldl_cons, hkept, List.flatMap_singleton', ih htable]

/-- **Replacing in turn is replacing at once**, if no character that is replaced later stands in
what was put in before. -/
theorem replaceInTurn_eq (h : table.Pairwise fun e later => later.1 ∉ e.2.toList) (s : String) :
    replaceInTurn table s = String.ofList (s.toList.flatMap (replacementOf table)) := by
  have hturns : replaceInTurn table s = String.ofList (table.foldl replaceEntry s.toList) := rfl
  rw [hturns, foldl_replaceEntry_eq_flatMap]
  refine congrArg String.ofList (List.flatMap_congr fun c _ => ?_)
  induction table with
  | nil => rfl
  | cons e table ih =>
    obtain ⟨d, replacement⟩ := e
    obtain ⟨hlater, htable⟩ := List.pairwise_cons.mp h
    by_cases hc : c = d
    · -- the character is replaced now, and what is put in is left alone from here on
      have hnow : replaceEntry [c] (d, replacement) = replacement.toList := by
        simp [replaceEntry, replaceChar, hc]
      rw [List.foldl_cons, hnow, foldl_replaceEntry_eq_self hlater, hc, replacementOf,
        List.lookup_cons_self]
      rfl
    · have hnow : replaceEntry [c] (d, replacement) = [c] := by
        simp [replaceEntry, replaceChar, hc]
      rw [List.foldl_cons, hnow, ih htable rfl, replacementOf, replacementOf, List.lookup_cons,
        beq_false_of_ne hc]

end ShiftReduce.Text

/-!
# Association lists

A list of names with values, no name twice, in the order in which the names first came. A value that
comes under a name that is there takes the place of the one before.
-/

namespace ShiftReduce.Association

variable {κ ν : Type} [DecidableEq κ]

/-- The list with `key` set to `v`: in its old place if the key is there, else at the end. -/
def put (l : List (κ × ν)) (key : κ) (v : ν) : List (κ × ν) :=
  match l with
  | [] => [(key, v)]
  | e :: rest => if e.1 = key then (key, v) :: rest else e :: put rest key v

theorem lookup_cons_eq (key key' : κ) (v : ν) (l : List (κ × ν)) :
    ((key, v) :: l).lookup key' = if key' = key then some v else l.lookup key' := by
  rw [List.lookup_cons]
  split
  · next h => rw [if_pos (beq_iff_eq.1 h)]
  · next h => rw [if_neg (beq_eq_false_iff_ne.1 h)]

theorem lookup_put (l : List (κ × ν)) (key key' : κ) (v : ν) :
    (put l key v).lookup key' = if key' = key then some v else l.lookup key' := by
  induction l with
  | nil => rw [put, lookup_cons_eq]
  | cons e l ih =>
    obtain ⟨k, old⟩ := e
    rw [put]
    split
    · next hk =>
      rw [lookup_cons_eq, lookup_cons_eq]
      simp only at hk
      subst hk
      split <;> rfl
    · next hk =>
      rw [lookup_cons_eq, lookup_cons_eq, ih]
      grind

/-- A new key comes at the end. -/
theorem put_of_notMem {l : List (κ × ν)} {key : κ} (h : key ∉ l.map (·.1)) (v : ν) :
    put l key v = l ++ [(key, v)] := by
  induction l with
  | nil => rfl
  | cons e l ih =>
    rw [List.map_cons, List.mem_cons, not_or] at h
    rw [put, if_neg fun he => h.1 he.symm, ih h.2, List.cons_append]

end ShiftReduce.Association

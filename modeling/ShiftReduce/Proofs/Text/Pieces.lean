import ShiftReduce.Proofs.Text.Blank
import ShiftReduce.Text.Pieces

/-!
# The pieces of texts that stand one behind the other

Where two texts meet, the last piece of the one goes on into the first piece of the other
(`ShiftReduce.Text.exists_splitOn_append`). A separator between them keeps their pieces apart
(`ShiftReduce.Text.pieces_append`), and blanks at the ends of a text are blanks at the ends of its
pieces (`ShiftReduce.Text.map_trim_splitOn`).
-/

namespace ShiftReduce.Text

variable {c : Char} {s : List Char}

/-- **Where two texts meet**, the last piece of the one goes on into the first of the other. -/
theorem exists_splitOn_append (c : Char) (s : List Char) :
    ∃ front last, s.splitOn c = front ++ [last] ∧
      ∀ t, (s ++ t).splitOn c = front ++ (t.splitOn c).modifyHead (last ++ ·) := by
  induction s with
  | nil =>
    refine ⟨[], [], List.splitOn_nil c, fun t => ?_⟩
    obtain ⟨first, rest, ht⟩ := List.exists_cons_of_ne_nil (List.splitOn_ne_nil c t)
    rw [List.nil_append, List.nil_append, ht]
    rfl
  | cons d s ih =>
    obtain ⟨front, last, hs, happend⟩ := ih
    have hcons : ∀ t : List Char, (d :: t).splitOn c =
        if d == c then [] :: t.splitOn c else (t.splitOn c).modifyHead (d :: ·) := fun t =>
      List.splitOnP_cons_eq_if_modifyHead d t
    by_cases hd : (d == c) = true
    · refine ⟨[] :: front, last, ?_, fun t => ?_⟩
      · rw [hcons, if_pos hd, hs]
        rfl
      · rw [List.cons_append, hcons, if_pos hd, happend]
        rfl
    · rcases front with _ | ⟨first, front⟩
      · refine ⟨[], d :: last, ?_, fun t => ?_⟩
        · rw [hcons, if_neg hd, hs]
          rfl
        · rw [List.cons_append, hcons, if_neg hd, happend, List.nil_append, List.nil_append,
            List.modifyHead_modifyHead]
          rfl
      · refine ⟨(d :: first) :: front, last, ?_, fun t => ?_⟩
        · rw [hcons, if_neg hd, hs]
          rfl
        · rw [List.cons_append, hcons, if_neg hd, happend]
          rfl

/-- A text ends with its last piece. -/
theorem suffix_of_splitOn_eq_append {front : List (List Char)} {last : List Char}
    (h : s.splitOn c = front ++ [last]) : last <:+ s := by
  have hjoin : ∀ front : List (List Char), last <:+ [c].intercalate (front ++ [last]) := by
    intro front
    induction front with
    | nil => simp [List.intercalate]
    | cons first front ih =>
      obtain ⟨next, later, hnext⟩ := List.exists_cons_of_ne_nil (List.concat_ne_nil last front)
      rw [List.cons_append, hnext, List.intercalate_cons_cons, ← hnext]
      exact ih.trans (List.suffix_append _ _)
  have hs : [c].intercalate (s.splitOn c) = s := List.intercalate_splitOn c
  rw [← hs, h]
  exact hjoin front

/-- **The pieces hold no separator.** -/
theorem notMem_of_mem_splitOn {w : List Char} (h : w ∈ s.splitOn c) : c ∉ w := by
  induction s generalizing w with
  | nil =>
    rw [List.splitOn_nil, List.mem_singleton] at h
    rw [h]
    exact List.not_mem_nil
  | cons d s ih =>
    rw [List.splitOn_cons_eq_if_modifyHead] at h
    obtain ⟨first, rest, hs⟩ := List.exists_cons_of_ne_nil (List.splitOn_ne_nil c s)
    rw [hs] at h ih
    by_cases hd : (d == c) = true
    · rw [if_pos hd, List.mem_cons] at h
      rcases h with rfl | h
      · exact List.not_mem_nil
      · exact ih h
    · rw [if_neg hd, List.modifyHead_cons, List.mem_cons] at h
      rcases h with rfl | h
      · have hne : c ≠ d := fun hsame => hd (beq_iff_eq.mpr hsame.symm)
        rw [List.mem_cons, not_or]
        exact ⟨hne, ih List.mem_cons_self⟩
      · exact ih (List.mem_cons_of_mem _ h)

/-- What is no separator stands in a text exactly if it stands in one of its pieces. -/
theorem exists_mem_splitOn_iff {d : Char} (h : d ≠ c) : (∃ w ∈ s.splitOn c, d ∈ w) ↔ d ∈ s := by
  induction s with
  | nil => simp [List.splitOn_nil]
  | cons e s ih =>
    have hcons : (e :: s).splitOn c =
        if e == c then [] :: s.splitOn c else (s.splitOn c).modifyHead (e :: ·) :=
      List.splitOnP_cons_eq_if_modifyHead e s
    obtain ⟨first, rest, hs⟩ := List.exists_cons_of_ne_nil (List.splitOn_ne_nil c s)
    rw [hs] at hcons ih
    rw [hcons, List.mem_cons, ← ih]
    by_cases he : (e == c) = true
    · obtain rfl : e = c := by simpa using he
      simp [h]
    · simp [he, or_assoc]

/-- **A separator between two texts keeps their pieces apart.** -/
theorem pieces_append (c : Char) (s t : String) :
    pieces c (s ++ (String.singleton c ++ t)) = pieces c s ++ pieces c t := by
  simp [pieces, List.splitOn_append_cons_self]

/-- **Blanks at the ends of a text are blanks at the ends of its pieces**, so the pieces without
such blanks are the same. -/
theorem map_trim_splitOn (hc : isBlank c = false) {before after : List Char}
    (hbefore : ∀ d ∈ before, isBlank d = true) (hafter : ∀ d ∈ after, isBlank d = true) :
    ((before ++ (s ++ after)).splitOn c).map trim = (s.splitOn c).map trim := by
  have hsingle : ∀ blanks : List Char, (∀ d ∈ blanks, isBlank d = true) →
      blanks.splitOn c = [blanks] := fun blanks hblanks =>
    List.splitOn_eq_singleton fun hmem => absurd (hblanks c hmem) (by simp [hc])
  have hback : ((s ++ after).splitOn c).map trim = (s.splitOn c).map trim := by
    obtain ⟨front, last, hs, happend⟩ := exists_splitOn_append c s
    have hlast : trim (last ++ after) = trim last := trim_append_right last hafter
    rw [happend, hsingle after hafter, hs, List.modifyHead_cons, List.map_append, List.map_append,
      List.map_singleton, List.map_singleton, hlast]
  rw [← hback]
  obtain ⟨front, last, hs, happend⟩ := exists_splitOn_append c before
  obtain ⟨rfl, rfl⟩ : front = [] ∧ last = before := by
    rw [hsingle before hbefore] at hs
    simpa [List.append_eq_cons_iff] using hs.symm
  obtain ⟨first, rest, hfirst⟩ :=
    List.exists_cons_of_ne_nil (List.splitOn_ne_nil c (s ++ after))
  rw [happend, hfirst, List.nil_append, List.modifyHead_cons, List.map_cons, List.map_cons,
    trim_append_left first hbefore]

end ShiftReduce.Text

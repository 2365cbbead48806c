import Mathlib.Data.List.Basic
import Mathlib.Data.List.TakeWhile
import ShiftReduce.Text.Blank

/-!
# Taking blanks off the ends of a text

What is taken off the ends of a text is blanks only (`ShiftReduce.Text.exists_eq_trim`), and nothing
is left of a text exactly if it holds nothing else (`ShiftReduce.Text.trim_eq_nil_iff`). Further
blanks at the ends make no difference (`ShiftReduce.Text.trim_append_append`). A text
whose ends are no blanks is left as it is (`ShiftReduce.Text.trim_eq_self`), and so is one without
any blanks (`ShiftReduce.Text.strip_eq_self_of_forall`).
-/

namespace ShiftReduce.Text

variable {s : List Char}

theorem exists_eq_trimStart (s : List Char) :
    ∃ before, s = before ++ trimStart s ∧ ∀ c ∈ before, isBlank c = true :=
  ⟨s.takeWhile isBlank, List.takeWhile_append_dropWhile.symm, fun _ => List.mem_takeWhile_imp⟩

/-- **What is taken off is blanks only.** -/
theorem exists_eq_trim (s : List Char) :
    ∃ before after, s = before ++ (trim s ++ after) ∧ (∀ c ∈ before, isBlank c = true) ∧
      ∀ c ∈ after, isBlank c = true := by
  obtain ⟨before, hs, hbefore⟩ := exists_eq_trimStart s
  obtain ⟨after, hback, hafter⟩ := exists_eq_trimStart (trimStart s).reverse
  refine ⟨before, after.reverse, ?_, hbefore, fun c hc => hafter c (List.mem_reverse.mp hc)⟩
  have hkept : trimStart s = trim s ++ after.reverse := by
    rw [trim, ← List.reverse_append, ← hback, List.reverse_reverse]
  rw [← hkept]
  exact hs

/-- A text that does not end in a blank begins with some, perhaps, and then there is what is left of
it. -/
theorem exists_eq_append_trim (h : ∀ c ∈ s.getLast?, isBlank c = false) :
    ∃ before, s = before ++ trim s ∧ ∀ c ∈ before, isBlank c = true := by
  obtain ⟨before, after, hs, hbefore, hafter⟩ := exists_eq_trim s
  rcases List.eq_nil_or_concat after with rfl | ⟨after, c, rfl⟩
  · exact ⟨before, by rwa [List.append_nil] at hs, hbefore⟩
  · have hlast := h c (by rw [hs]; simp)
    simp [hafter c] at hlast

/-- A text that does not begin with a blank is what is left of it, and perhaps blanks. -/
theorem exists_eq_trim_append (h : ∀ c ∈ s.head?, isBlank c = false) :
    ∃ after, s = trim s ++ after ∧ ∀ c ∈ after, isBlank c = true := by
  obtain ⟨before, after, hs, hbefore, hafter⟩ := exists_eq_trim s
  rcases before with _ | ⟨c, before⟩
  · exact ⟨after, hs, hafter⟩
  · have hfirst := h c (by rw [hs]; rfl)
    simp [hbefore c] at hfirst

/-- **Nothing is left of a text that holds nothing but blanks**, and something of any other. -/
theorem trim_eq_nil_iff : trim s = [] ↔ s.all isBlank = true := by
  rw [List.all_eq_true]
  constructor
  · intro h c hc
    obtain ⟨before, after, hs, hbefore, hafter⟩ := exists_eq_trim s
    rw [h, List.nil_append] at hs
    rw [hs] at hc
    exact (List.mem_append.mp hc).elim (hbefore c) (hafter c)
  · intro h
    rw [trim, trimStart, trimStart, List.dropWhile_eq_nil_iff.mpr h]
    rfl

/-- **Blanks at the ends make no difference.** -/
theorem trim_append_append {before after : List Char} (s : List Char)
    (hbefore : ∀ c ∈ before, isBlank c = true) (hafter : ∀ c ∈ after, isBlank c = true) :
    trim (before ++ (s ++ after)) = trim s := by
  have hfront : trimStart (before ++ (s ++ after)) = trimStart (s ++ after) :=
    List.dropWhile_append_of_pos hbefore
  by_cases hs : trimStart s = []
  · have hall : trimStart (s ++ after) = [] := by
      rw [trimStart, List.dropWhile_eq_nil_iff] at hs ⊢
      exact fun c hc => (List.mem_append.mp hc).elim (hs c) (hafter c)
    rw [trim, hfront, hall, trim, hs]
  · have hkept : trimStart (s ++ after) = trimStart s ++ after :=
      List.dropWhile_append.trans (if_neg (mt List.isEmpty_iff.mp hs))
    have hback : trimStart (after.reverse ++ (trimStart s).reverse) =
        trimStart (trimStart s).reverse :=
      List.dropWhile_append_of_pos fun c hc => hafter c (List.mem_reverse.mp hc)
    rw [trim, hfront, hkept, List.reverse_append, hback, trim]

theorem trim_append_left {before : List Char} (s : List Char)
    (h : ∀ c ∈ before, isBlank c = true) : trim (before ++ s) = trim s := by
  have hboth := trim_append_append s h (List.forall_mem_nil _)
  rwa [List.append_nil] at hboth

theorem trim_append_right {after : List Char} (s : List Char)
    (h : ∀ c ∈ after, isBlank c = true) : trim (s ++ after) = trim s :=
  trim_append_append s (List.forall_mem_nil _) h

/-- A text from which the blanks were taken has none at its ends. -/
theorem isBlank_head?_trim {c : Char} (h : c ∈ (trim s).head?) : isBlank c = false := by
  obtain ⟨after, hback, -⟩ := exists_eq_trimStart (trimStart s).reverse
  have hprefix : trim s <+: trimStart s := by
    refine ⟨after.reverse, ?_⟩
    rw [trim, ← List.reverse_append, ← hback, List.reverse_reverse]
  have hhead : c ∈ (trimStart s).head? := by
    obtain ⟨rest, hrest⟩ := hprefix
    rw [← hrest]
    rw [List.head?_append, Option.mem_def.mp h]
    rfl
  have hstop := List.head?_dropWhile_not isBlank s
  rw [← trimStart, Option.mem_def.mp hhead] at hstop
  simpa using hstop

theorem isBlank_getLast?_trim {c : Char} (h : c ∈ (trim s).getLast?) : isBlank c = false := by
  rw [trim, List.getLast?_reverse] at h
  have hstop := List.head?_dropWhile_not isBlank (trimStart s).reverse
  rw [← trimStart, Option.mem_def.mp h] at hstop
  simpa using hstop

/-- Off the end of a text blanks only can be taken. -/
theorem exists_eq_append_blanks (s : List Char) :
    ∃ front blanks, s = front ++ blanks ∧ (∀ c ∈ front.getLast?, isBlank c = false) ∧
      ∀ c ∈ blanks, isBlank c = true := by
  obtain ⟨blanks, hs, hblanks⟩ := exists_eq_trimStart s.reverse
  refine ⟨(trimStart s.reverse).reverse, blanks.reverse, ?_, fun c hc => ?_,
    fun c hc => hblanks c (List.mem_reverse.mp hc)⟩
  · rw [← List.reverse_append, ← hs, List.reverse_reverse]
  · rw [List.getLast?_reverse] at hc
    have hstop := List.head?_dropWhile_not isBlank s.reverse
    rw [← trimStart, Option.mem_def.mp hc] at hstop
    simpa using hstop

/-- What is no blank is left. -/
theorem mem_trim_iff {c : Char} (h : isBlank c = false) : c ∈ trim s ↔ c ∈ s := by
  obtain ⟨before, after, hs, hbefore, hafter⟩ := exists_eq_trim s
  have hnone : c ∉ before ∧ c ∉ after :=
    ⟨fun hc => by simp [hbefore c hc] at h, fun hc => by simp [hafter c hc] at h⟩
  have hmem : c ∈ s ↔ c ∈ before ++ (trim s ++ after) := by rw [← hs]
  simp [hmem, hnone.1, hnone.2]

theorem strip_eq_empty_iff {t : String} : strip t = "" ↔ t.toList.all isBlank = true := by
  rw [← trim_eq_nil_iff, strip, ← String.toList_inj, String.toList_ofList]
  rfl

theorem trimStart_eq_self (h : ∀ c ∈ s.head?, isBlank c = false) : trimStart s = s := by
  cases s with
  | nil => rfl
  | cons c s => rw [trimStart, List.dropWhile_cons_of_neg (by simp [h c rfl])]

/-- **A text whose ends are no blanks is left as it is.** -/
theorem trim_eq_self (hfirst : ∀ c ∈ s.head?, isBlank c = false)
    (hlast : ∀ c ∈ s.getLast?, isBlank c = false) : trim s = s := by
  have hback : trimStart s.reverse = s.reverse := trimStart_eq_self fun c hc => by
    rw [List.head?_reverse] at hc
    exact hlast c hc
  rw [trim, trimStart_eq_self hfirst, hback, List.reverse_reverse]

theorem trim_trim (s : List Char) : trim (trim s) = trim s :=
  trim_eq_self (fun _ => isBlank_head?_trim) fun _ => isBlank_getLast?_trim

theorem trim_append_of_trim_eq_nil {t : List Char} (h : trim s = []) : trim (s ++ t) = trim t :=
  trim_append_left t (List.all_eq_true.mp (trim_eq_nil_iff.mp h))

/-- **Between two texts that are more than blanks**, and have no blanks where they face each other,
everything stays. -/
theorem trim_append_between {t : List Char} (hs : ∀ c ∈ s.getLast?, isBlank c = false)
    (ht : ∀ c ∈ t.head?, isBlank c = false) (hs' : trim s ≠ []) (ht' : trim t ≠ [])
    (between : List Char) : trim (s ++ (between ++ t)) = trim s ++ (between ++ trim t) := by
  obtain ⟨before, hbefore, hblank⟩ := exists_eq_append_trim hs
  obtain ⟨after, hafter, hblank'⟩ := exists_eq_trim_append ht
  have hwhole : s ++ (between ++ t) =
      before ++ ((trim s ++ (between ++ trim t)) ++ after) := by
    calc s ++ (between ++ t) = (before ++ trim s) ++ (between ++ (trim t ++ after)) := by
          rw [← hbefore, ← hafter]
      _ = before ++ ((trim s ++ (between ++ trim t)) ++ after) := by simp
  rw [hwhole, trim_append_append _ hblank hblank']
  refine trim_eq_self (fun c hc => ?_) fun c hc => ?_
  · rw [List.head?_append_of_ne_nil _ hs'] at hc
    exact isBlank_head?_trim hc
  · rw [← List.append_assoc, List.getLast?_append_of_ne_nil _ ht'] at hc
    exact isBlank_getLast?_trim hc

/-- Blanks in front of the second text are among what stays. -/
theorem exists_trim_append {t : List Char} (hs : ∀ c ∈ s.getLast?, isBlank c = false)
    (hs' : trim s ≠ []) (ht' : trim t ≠ []) : ∃ lead,
      (lead = [] ↔ ∀ c ∈ t.head?, isBlank c = false) ∧
      ∀ between, trim (s ++ (between ++ t)) = trim s ++ (between ++ (lead ++ trim t)) := by
  obtain ⟨lead, after, ht, hlead, hafter⟩ := exists_eq_trim t
  have hback : trim (trim t ++ after) = trim t := by rw [trim_append_right _ hafter, trim_trim]
  have hhead : ∀ c ∈ (trim t ++ after).head?, isBlank c = false := fun c hc => by
    rw [List.head?_append_of_ne_nil _ ht'] at hc
    exact isBlank_head?_trim hc
  refine ⟨lead, ⟨?_, fun h => ?_⟩, fun between => ?_⟩
  · rintro rfl
    rwa [ht]
  · rcases lead with _ | ⟨c, lead⟩
    · rfl
    · have hfirst := h c (by rw [ht]; rfl)
      simp [hlead c] at hfirst
  · have hwhole := trim_append_between hs hhead hs' (by rwa [hback]) (between ++ lead)
    rw [hback, List.append_assoc, List.append_assoc, ← ht] at hwhole
    exact hwhole

theorem strip_eq_self {t : String} (hfirst : ∀ c ∈ t.toList.head?, isBlank c = false)
    (hlast : ∀ c ∈ t.toList.getLast?, isBlank c = false) : strip t = t := by
  rw [strip, trim_eq_self hfirst hlast, String.ofList_toList]

/-- Nothing more is taken off the second time. -/
theorem strip_strip (t : String) : strip (strip t) = strip t := by
  rw [strip, strip, String.toList_ofList, trim_trim]

/-- A text without blanks is left as it is. -/
theorem strip_eq_self_of_forall {t : String} (h : ∀ c ∈ t.toList, isBlank c = false) :
    strip t = t :=
  strip_eq_self (fun c hc => h c (List.mem_of_mem_head? hc))
    fun c hc => h c (List.mem_of_mem_getLast? hc)

end ShiftReduce.Text

import Mathlib.Data.List.TakeWhile
import ShiftReduce.Proofs.Text.Lexeme

/-!
# The longest run first

The cut of a text is defined from the right. Whoever goes through the text from the left does it in
this way: a blank is passed over, a mark is a lexeme, and where an ordinary character comes the run
is read up to where it ends. `ShiftReduce.Text.Munches` is this reading. It comes to the end of
every text, with the lexemes of the text (`ShiftReduce.Text.munches_iff`).

So every lexeme stands somewhere in the text, with the lexemes before it cut from what is in front
and those after it from what is behind (`ShiftReduce.Text.exists_of_lexemes_eq`), and where two runs
follow one another there are blanks between them (`ShiftReduce.Text.exists_gap`). Texts are cut one
after the other wherever the two do not meet inside a run
(`ShiftReduce.Text.lexemes_append_of_boundary`).
-/

namespace ShiftReduce.Text

variable {c : Char} {s t v w : List Char} {ws front back : List (List Char)}

/-! ### Reading from the left -/

/-- **Reading a text from the left.** -/
inductive Munches : List Char → List (List Char) → Prop
  /-- Nothing is left. -/
  | nil : Munches [] []
  /-- A blank is passed over. -/
  | blank {c : Char} {s : List Char} {ws : List (List Char)} : isBlank c = true →
      Munches s ws → Munches (c :: s) ws
  /-- A mark stands alone. -/
  | mark {c : Char} {s : List Char} {ws : List (List Char)} : isMark c = true →
      Munches s ws → Munches (c :: s) ([c] :: ws)
  /-- A run is read up to where no further ordinary character comes. -/
  | run {w s : List Char} {ws : List (List Char)} : IsRun w → beginsRun s = false →
      Munches s ws → Munches (w ++ s) (w :: ws)

/-- What is behind the longest run does not go on with it. -/
theorem beginsRun_dropWhile (s : List Char) : beginsRun (s.dropWhile isOrdinary) = false := by
  cases hrest : s.dropWhile isOrdinary with
  | nil => rfl
  | cons c rest =>
    have hne : s.dropWhile isOrdinary ≠ [] := by simp [hrest]
    have hhead := List.head_dropWhile_not isOrdinary hne
    simpa [hrest, beginsRun] using hhead

/-- **The reading comes to an end**, with the lexemes. -/
theorem munches_lexemes (s : List Char) : Munches s (lexemes s) := by
  induction hlen : s.length using Nat.strongRecOn generalizing s with
  | ind n ih =>
    rcases s with _ | ⟨c, s⟩
    · exact .nil
    have hshort : s.length < n := by simp [← hlen]
    rcases char_cases c with hc | hc | hc
    · rw [lexemes_cons_of_isBlank hc]
      exact .blank hc (ih _ hshort s rfl)
    · rw [lexemes_cons_of_isMark hc]
      exact .mark hc (ih _ hshort s rfl)
    · -- the run is taken off as a whole
      have hrun : IsRun (c :: s.takeWhile isOrdinary) :=
        ⟨List.cons_ne_nil _ _, List.forall_mem_cons.mpr ⟨hc, fun _ => List.mem_takeWhile_imp⟩⟩
      have hsplit : c :: s = c :: s.takeWhile isOrdinary ++ s.dropWhile isOrdinary := by
        rw [List.cons_append, List.takeWhile_append_dropWhile]
      have hrest : (s.dropWhile isOrdinary).length < n :=
        Nat.lt_of_le_of_lt (List.dropWhile_suffix _).length_le hshort
      rw [hsplit, lexemes_append_of_isRun hrun (beginsRun_dropWhile s)]
      exact .run hrun (beginsRun_dropWhile s) (ih _ hrest _ rfl)

/-- **The reading gives the lexemes of the text**, and nothing else. -/
theorem munches_iff : Munches s ws ↔ lexemes s = ws := by
  constructor
  · intro h
    induction h with
    | nil => rfl
    | blank hc _ ih => rw [lexemes_cons_of_isBlank hc, ih]
    | mark hc _ ih => rw [lexemes_cons_of_isMark hc, ih]
    | run hw hs _ ih => rw [lexemes_append_of_isRun hw hs, ih]
  · rintro rfl
    exact munches_lexemes s

/-! ### Where a lexeme stands -/

/-- **Every lexeme stands in the text**: those before it are cut from what is in front of it, those
after it from what is behind, and a run has come to its end. -/
theorem exists_of_lexemes_eq (h : lexemes s = front ++ w :: back) :
    ∃ x y, s = x ++ (w ++ y) ∧ lexemes x = front ∧ lexemes y = back ∧
      (IsRun w → beginsRun y = false) := by
  obtain ⟨ws, hws⟩ : ∃ ws, ws = front ++ w :: back := ⟨_, rfl⟩
  have hread : Munches s ws := munches_iff.mpr (h.trans hws.symm)
  clear h
  induction hread generalizing front with
  | nil => exact absurd hws (by simp)
  | @blank c s ws hc _ ih =>
    obtain ⟨x, y, rfl, hx, hy, hend⟩ := ih hws
    exact ⟨c :: x, y, rfl, by rw [lexemes_cons_of_isBlank hc, hx], hy, hend⟩
  | @mark c s ws hc hread ih =>
    rcases front with _ | ⟨u, front⟩
    · obtain ⟨rfl, rfl⟩ := List.cons.inj hws
      refine ⟨[], s, rfl, rfl, munches_iff.mp hread, fun hrun => ?_⟩
      have hordinary := hrun.2 c List.mem_cons_self
      exact absurd (isOrdinary_iff.mp hordinary).2 (by simp [hc])
    · obtain ⟨rfl, hlater⟩ := List.cons.inj hws
      obtain ⟨x, y, rfl, hx, hy, hend⟩ := ih hlater
      exact ⟨c :: x, y, rfl, by rw [lexemes_cons_of_isMark hc, hx], hy, hend⟩
  | @run v s ws hv hs hread ih =>
    rcases front with _ | ⟨u, front⟩
    · obtain ⟨rfl, rfl⟩ := List.cons.inj hws
      exact ⟨[], s, rfl, rfl, munches_iff.mp hread, fun _ => hs⟩
    · obtain ⟨rfl, hlater⟩ := List.cons.inj hws
      obtain ⟨x, y, rfl, hx, hy, hend⟩ := ih hlater
      have hends : beginsRun x = false := by
        rcases x with _ | ⟨d, x⟩
        · rfl
        · exact hs
      exact ⟨v ++ x, y, by rw [List.append_assoc], by rw [lexemes_append_of_isRun hv hends, hx], hy,
        hend⟩

/-- **Between two runs that follow one another there are blanks.** -/
theorem exists_gap (h : lexemes s = front ++ v :: w :: back) (hv : IsRun v) (hw : IsRun w) :
    ∃ x gap y, s = x ++ (v ++ (gap ++ (w ++ y))) ∧ gap ≠ [] ∧ (∀ c ∈ gap, isBlank c = true) ∧
      lexemes x = front ∧ lexemes y = back := by
  obtain ⟨x, rest, rfl, hx, hrest, hend⟩ := exists_of_lexemes_eq h
  rw [← List.nil_append (w :: back)] at hrest
  obtain ⟨gap, y, rfl, hgap, hy, -⟩ := exists_of_lexemes_eq hrest
  refine ⟨x, gap, y, rfl, ?_, List.all_eq_true.mp (lexemes_eq_nil_iff.mp hgap), hx, hy⟩
  rintro rfl
  -- without blanks the second run would go on with the first
  obtain ⟨c, w, rfl⟩ := List.exists_cons_of_ne_nil hw.1
  exact absurd (hend hv) (by simpa [beginsRun] using hw.2 c List.mem_cons_self)

/-! ### Texts that do not meet inside a run -/

theorem isOrdinary_eq_false (h : isBlank c = true ∨ isMark c = true) : isOrdinary c = false := by
  rcases h with h | h <;> simp [isOrdinary, h]

/-- **Texts are cut one after the other** if one of them is empty, or a blank or a mark stands where
they meet. -/
theorem lexemes_append_of_boundary
    (h : s = [] ∨ t = [] ∨ (∃ c ∈ s.getLast?, isBlank c = true ∨ isMark c = true) ∨
      ∃ c ∈ t.head?, isBlank c = true ∨ isMark c = true) :
    lexemes (s ++ t) = lexemes s ++ lexemes t := by
  rcases h with rfl | rfl | ⟨c, hc, hstop⟩ | ⟨c, hc, hstop⟩
  · rfl
  · exact lexemes_append rfl
  · obtain ⟨s, rfl⟩ := List.getLast?_eq_some_iff.mp hc
    have hends : ∀ t, beginsRun (c :: t) = false := fun t => isOrdinary_eq_false hstop
    have hone : lexemes (c :: t) = lexemes [c] ++ lexemes t := by
      rcases hstop with hblank | hmark
      · rw [lexemes_cons_of_isBlank hblank, lexemes_cons_of_isBlank hblank]
        rfl
      · rw [lexemes_cons_of_isMark hmark, lexemes_cons_of_isMark hmark]
        rfl
    rw [List.append_assoc, List.singleton_append, lexemes_append (hends t), hone,
      lexemes_append (hends []), List.append_assoc]
  · obtain ⟨t, rfl⟩ := List.head?_eq_some_iff.mp hc
    exact lexemes_append (isOrdinary_eq_false hstop)

/-! ### What a lexer has to do -/

/-- **A lexer that takes the longest runs and loses nothing.** -/
structure IsMaximalMunch (cut : String → List String) : Prop where
  /-- Every text is read from the left to its end. -/
  munches : ∀ s, Munches s.toList ((cut s).map String.toList)
  /-- The blanks are all that is left out. -/
  complete : ∀ s, (String.join (cut s)).toList = s.toList.filter (!isBlank ·)
  /-- What is cut is a mark, or a run. -/
  lexeme : ∀ s, ∀ w ∈ cut s, IsLexeme w.toList
  /-- Two runs that follow one another have blanks between them in the text. -/
  apart : ∀ s front v w back, cut s = front ++ v :: w :: back → IsRun v.toList → IsRun w.toList →
    ∃ x gap y, s = x ++ (v ++ (gap ++ (w ++ y))) ∧ gap ≠ "" ∧
      (∀ c ∈ gap.toList, isBlank c = true) ∧ cut x = front ∧ cut y = back
  /-- Texts are cut one after the other if they do not meet inside a run. -/
  append : ∀ s t, (s = "" ∨ t = "" ∨
      (∃ c ∈ s.toList.getLast?, isBlank c = true ∨ isMark c = true) ∨
      ∃ c ∈ t.toList.head?, isBlank c = true ∨ isMark c = true) →
    cut (s ++ t) = cut s ++ cut t
  /-- Lexemes with a space between any two are cut apart again. -/
  intercalate : ∀ ws, (∀ w ∈ ws, IsLexeme w.toList) → cut (" ".intercalate ws) = ws

/-- **The cut takes the longest runs and loses nothing.** -/
theorem isMaximalMunch_lexemesOf : IsMaximalMunch lexemesOf where
  munches s := by
    rw [map_toList_lexemesOf]
    exact munches_lexemes s.toList
  complete s := by
    rw [String.toList_join, List.flatMap_def, map_toList_lexemesOf, flatten_lexemes]
  lexeme s w hw := isLexeme_of_mem_lexemes (mem_lexemesOf.mp hw)
  apart s front v w back h hv hw := by
    rw [lexemesOf_eq_iff, List.map_append, List.map_cons, List.map_cons] at h
    obtain ⟨x, gap, y, hs, hgap, hblank, hx, hy⟩ := exists_gap h hv hw
    refine ⟨.ofList x, .ofList gap, .ofList y, ?_, ?_, by simpa using hblank, ?_, ?_⟩
    · apply String.toList_inj.mp
      simpa using hs
    · simpa [← String.toList_inj] using hgap
    · simpa [lexemesOf_eq_iff] using hx
    · simpa [lexemesOf_eq_iff] using hy
  append s t h := by
    rw [lexemesOf, String.toList_append, lexemes_append_of_boundary ?_, List.map_append]
    · rfl
    · exact h.imp (congrArg String.toList) (Or.imp_left (congrArg String.toList))
  intercalate _ := lexemesOf_intercalate

end ShiftReduce.Text

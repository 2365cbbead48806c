import Mathlib.Data.List.Basic
import ShiftReduce.Proofs.Text.Blank
import ShiftReduce.Text.Lexeme

/-!
# What a text is cut into

A lexeme is a mark or a run of ordinary characters (`ShiftReduce.Text.IsLexeme`). The cut of a text
yields lexemes only (`ShiftReduce.Text.isLexeme_of_mem_lexemes`) and leaves nothing out but the
blanks (`ShiftReduce.Text.flatten_lexemes`). So whether a mark is among the lexemes of a text can be
told from the characters of the text (`ShiftReduce.Text.mem_lexemes_iff_of_isMark`).

Texts are cut one after the other where the second does not continue a run
(`ShiftReduce.Text.lexemes_append`), so blanks at the ends of a text make no difference
(`ShiftReduce.Text.lexemes_trim`).

Conversely, lexemes with a blank between any two of them are cut apart again
(`ShiftReduce.Text.lexemes_intercalate`): a lexeme ends where no further ordinary character comes.
Such a text has no blanks at its ends (`ShiftReduce.Text.trim_intercalate`).
-/

namespace ShiftReduce.Text

variable {c : Char} {s w : List Char}

/-! ### Marks, blanks and ordinary characters -/

theorem isMark_iff : isMark c = true ↔ c ∈ ['(', ')', '+', '*', '|', '$'] := by
  rw [isMark, List.contains_iff_mem]

/-- No mark is a blank. -/
theorem isBlank_of_isMark (h : isMark c = true) : isBlank c = false := by
  have hall : ['(', ')', '+', '*', '|', '$'].all (fun d => !isBlank d) = true := by decide
  simpa using List.all_eq_true.mp hall c (isMark_iff.mp h)

theorem isOrdinary_iff : isOrdinary c = true ↔ isBlank c = false ∧ isMark c = false := by
  simp [isOrdinary]

/-- **A run**: ordinary characters, at least one of them. -/
def IsRun (w : List Char) : Prop :=
  w ≠ [] ∧ ∀ c ∈ w, isOrdinary c = true

/-- **A lexeme**: a mark, or a run. -/
def IsLexeme (w : List Char) : Prop :=
  (∃ c, isMark c = true ∧ w = [c]) ∨ IsRun w

/-- A lexeme holds no blank. -/
theorem IsLexeme.isBlank (h : IsLexeme w) (hc : c ∈ w) : isBlank c = false := by
  rcases h with ⟨d, hd, rfl⟩ | ⟨-, hall⟩
  · rw [List.mem_singleton.mp hc]
    exact isBlank_of_isMark hd
  · exact (isOrdinary_iff.mp (hall c hc)).1

theorem IsLexeme.ne_nil (h : IsLexeme w) : w ≠ [] := by
  rcases h with ⟨c, -, rfl⟩ | ⟨hne, -⟩
  · exact List.cons_ne_nil c []
  · exact hne

/-- A lexeme that holds a mark is that mark. -/
theorem IsLexeme.eq_of_isMark (h : IsLexeme w) (hc : c ∈ w) (hmark : isMark c = true) :
    w = [c] := by
  rcases h with ⟨d, -, rfl⟩ | ⟨-, hall⟩
  · rw [List.mem_singleton.mp hc]
  · have hordinary := (isOrdinary_iff.mp (hall c hc)).2
    rw [hmark] at hordinary
    exact absurd hordinary (by simp)

/-! ### The cut -/

theorem lexemes_cons_of_isBlank (h : isBlank c = true) : lexemes (c :: s) = lexemes s := by
  rw [lexemes, if_pos h]

theorem lexemes_cons_of_isMark (h : isMark c = true) : lexemes (c :: s) = [c] :: lexemes s := by
  rw [lexemes, isBlank_of_isMark h, if_neg (by simp), if_pos h]

/-- An ordinary character begins a lexeme or is put in front of the one that follows. -/
theorem lexemes_cons_of_isOrdinary (h : isOrdinary c = true) :
    lexemes (c :: s) =
      if beginsRun s then extendFirst c (lexemes s) else [c] :: lexemes s := by
  obtain ⟨hblank, hmark⟩ := isOrdinary_iff.mp h
  rw [lexemes, hblank, hmark, if_neg (by simp), if_neg (by simp)]

/-- A character is a blank, a mark or ordinary. -/
theorem char_cases (c : Char) : isBlank c = true ∨ isMark c = true ∨ isOrdinary c = true := by
  cases hblank : isBlank c with
  | true => exact Or.inl rfl
  | false =>
    cases hmark : isMark c with
    | true => exact Or.inr (Or.inl rfl)
    | false => exact Or.inr (Or.inr (isOrdinary_iff.mpr ⟨hblank, hmark⟩))

/-- Where a run begins, the first lexeme is a run. -/
theorem exists_run_of_beginsRun (h : beginsRun s = true) :
    ∃ w ws, lexemes s = w :: ws ∧ IsRun w := by
  induction s with
  | nil => exact absurd h (by simp [beginsRun])
  | cons c s ih =>
    have hc : isOrdinary c = true := h
    rw [lexemes_cons_of_isOrdinary hc]
    split
    · next hrun =>
      obtain ⟨w, ws, hws, -, hall⟩ := ih hrun
      rw [hws]
      exact ⟨c :: w, ws, rfl, List.cons_ne_nil c w, List.forall_mem_cons.mpr ⟨hc, hall⟩⟩
    · exact ⟨[c], lexemes s, rfl, List.cons_ne_nil c [], by simpa using hc⟩

/-- **The cut yields lexemes.** -/
theorem isLexeme_of_mem_lexemes (h : w ∈ lexemes s) : IsLexeme w := by
  induction s generalizing w with
  | nil => exact absurd h List.not_mem_nil
  | cons c s ih =>
    rcases char_cases c with hc | hc | hc
    · rw [lexemes_cons_of_isBlank hc] at h
      exact ih h
    · rw [lexemes_cons_of_isMark hc] at h
      rcases List.mem_cons.mp h with rfl | h
      · exact Or.inl ⟨c, hc, rfl⟩
      · exact ih h
    · by_cases hrun : beginsRun s = true
      · -- the character goes in front of a run, which stays one
        obtain ⟨v, vs, hvs, -, hall⟩ := exists_run_of_beginsRun hrun
        rw [lexemes_cons_of_isOrdinary hc, if_pos hrun, hvs] at h
        rcases List.mem_cons.mp h with rfl | h
        · exact Or.inr ⟨List.cons_ne_nil c v, List.forall_mem_cons.mpr ⟨hc, hall⟩⟩
        · exact ih (hvs ▸ List.mem_cons_of_mem v h)
      · rw [lexemes_cons_of_isOrdinary hc, if_neg hrun] at h
        rcases List.mem_cons.mp h with rfl | h
        · exact Or.inr ⟨List.cons_ne_nil c [], by simpa using hc⟩
        · exact ih h

theorem flatten_extendFirst (c : Char) (ws : List (List Char)) :
    (extendFirst c ws).flatten = c :: ws.flatten := by
  cases ws <;> rfl

/-- **The cut leaves out the blanks only.** -/
theorem flatten_lexemes (s : List Char) : (lexemes s).flatten = s.filter (!isBlank ·) := by
  induction s with
  | nil => rfl
  | cons c s ih =>
    rcases char_cases c with hc | hc | hc
    · rw [lexemes_cons_of_isBlank hc, ih, List.filter_cons_of_neg (by simp [hc])]
    · rw [lexemes_cons_of_isMark hc, List.flatten_cons, ih,
        List.filter_cons_of_pos (by simp [isBlank_of_isMark hc])]
      rfl
    · rw [lexemes_cons_of_isOrdinary hc,
        List.filter_cons_of_pos (by simp [(isOrdinary_iff.mp hc).1]), ← ih]
      split
      · exact flatten_extendFirst c _
      · rfl

/-- **A mark is a lexeme of a text exactly if it stands in the text.** -/
theorem mem_lexemes_iff_of_isMark (hc : isMark c = true) : [c] ∈ lexemes s ↔ c ∈ s := by
  have hmem : c ∈ (lexemes s).flatten ↔ c ∈ s := by
    rw [flatten_lexemes, List.mem_filter]
    simp [isBlank_of_isMark hc]
  rw [← hmem, List.mem_flatten]
  constructor
  · exact fun h => ⟨[c], h, List.mem_singleton_self c⟩
  · rintro ⟨w, hw, hcw⟩
    exact (isLexeme_of_mem_lexemes hw).eq_of_isMark hcw hc ▸ hw

/-- A text has no lexemes exactly if it holds nothing but blanks. -/
theorem lexemes_eq_nil_iff : lexemes s = [] ↔ s.all isBlank = true := by
  have hfilter : s.filter (!isBlank ·) = [] ↔ s.all isBlank = true := by
    rw [List.filter_eq_nil_iff, List.all_eq_true]
    simp
  rw [← hfilter, ← flatten_lexemes, List.flatten_eq_nil_iff]
  constructor
  · intro h w hw
    exact absurd hw (h ▸ List.not_mem_nil)
  · intro h
    exact List.eq_nil_iff_forall_not_mem.mpr fun w hw =>
      (isLexeme_of_mem_lexemes hw).ne_nil (h w hw)

/-! ### Texts one after the other -/

/-- **Texts are cut one after the other** if the second does not continue a run. -/
theorem lexemes_append {t : List Char} (ht : beginsRun t = false) :
    lexemes (s ++ t) = lexemes s ++ lexemes t := by
  induction s with
  | nil => rfl
  | cons c s ih =>
    rw [List.cons_append]
    rcases char_cases c with hc | hc | hc
    · rw [lexemes_cons_of_isBlank hc, lexemes_cons_of_isBlank hc, ih]
    · rw [lexemes_cons_of_isMark hc, lexemes_cons_of_isMark hc, ih, List.cons_append]
    · have hrun : beginsRun (s ++ t) = beginsRun s := by
        cases s with
        | nil => exact ht
        | cons d s => rfl
      rw [lexemes_cons_of_isOrdinary hc, lexemes_cons_of_isOrdinary hc, hrun, ih]
      split
      · next h =>
        obtain ⟨w, ws, hws, -⟩ := exists_run_of_beginsRun h
        rw [hws]
        rfl
      · rfl

theorem lexemes_append_of_forall_isBlank {before : List Char}
    (h : ∀ c ∈ before, isBlank c = true) : lexemes (before ++ s) = lexemes s := by
  induction before with
  | nil => rfl
  | cons c before ih =>
    obtain ⟨hc, hall⟩ := List.forall_mem_cons.mp h
    rw [List.cons_append, lexemes_cons_of_isBlank hc, ih hall]

/-- **Blanks at the ends of a text make no difference.** -/
theorem lexemes_trim (s : List Char) : lexemes (trim s) = lexemes s := by
  obtain ⟨before, after, hs, hbefore, hafter⟩ := exists_eq_trim s
  have hrun : beginsRun after = false := by
    cases after with
    | nil => rfl
    | cons c after => simp [beginsRun, isOrdinary, hafter c List.mem_cons_self]
  have hnone : lexemes after = [] := lexemes_eq_nil_iff.mpr (List.all_eq_true.mpr hafter)
  conv_rhs => rw [hs, lexemes_append_of_forall_isBlank hbefore, lexemes_append hrun, hnone]
  rw [List.append_nil]

theorem lexemesOf_strip (t : String) : lexemesOf (strip t) = lexemesOf t := by
  rw [lexemesOf, strip, String.toList_ofList, lexemes_trim, lexemesOf]

/-! ### Lexemes with blanks between them -/

/-- A run is cut off where no further ordinary character comes. -/
theorem lexemes_append_of_isRun (hw : IsRun w) (hs : beginsRun s = false) :
    lexemes (w ++ s) = w :: lexemes s := by
  induction w with
  | nil => exact absurd rfl hw.1
  | cons c w ih =>
    obtain ⟨hc, hall⟩ := List.forall_mem_cons.mp hw.2
    rw [List.cons_append, lexemes_cons_of_isOrdinary hc]
    rcases w with _ | ⟨d, w⟩
    · rw [List.nil_append, hs, if_neg (by simp)]
    · have hrun : beginsRun (d :: w ++ s) = true := hall d List.mem_cons_self
      rw [if_pos hrun, ih ⟨List.cons_ne_nil d w, hall⟩]
      rfl

/-- A lexeme is cut off where no further ordinary character comes. -/
theorem IsLexeme.lexemes_append (hw : IsLexeme w) (hs : beginsRun s = false) :
    lexemes (w ++ s) = w :: lexemes s := by
  rcases hw with ⟨c, hc, rfl⟩ | hrun
  · exact lexemes_cons_of_isMark hc
  · exact lexemes_append_of_isRun hrun hs

theorem intercalate_cons_cons (v w : List Char) (ws : List (List Char)) :
    [' '].intercalate (v :: w :: ws) = v ++ ' ' :: [' '].intercalate (w :: ws) := by
  rw [List.intercalate_cons_cons, List.append_assoc, List.singleton_append]

/-- **Lexemes with a blank between any two are cut apart again.** -/
theorem lexemes_intercalate {ws : List (List Char)} (h : ∀ w ∈ ws, IsLexeme w) :
    lexemes ([' '].intercalate ws) = ws := by
  induction ws with
  | nil => rfl
  | cons w ws ih =>
    obtain ⟨hw, hall⟩ := List.forall_mem_cons.mp h
    rcases ws with _ | ⟨v, ws⟩
    · have hlast : lexemes (w ++ []) = [w] := hw.lexemes_append rfl
      simpa [List.intercalate] using hlast
    · have hspace : beginsRun (' ' :: [' '].intercalate (v :: ws)) = false :=
        show isOrdinary ' ' = false by decide
      rw [intercalate_cons_cons, hw.lexemes_append hspace, lexemes_cons_of_isBlank (by decide),
        ih hall]

/-- What stands in a text of words stands in one of them, or is a blank between two. -/
theorem mem_of_mem_intercalate {ws : List (List Char)} (hc : c ∈ [' '].intercalate ws) :
    c = ' ' ∨ ∃ w ∈ ws, c ∈ w := by
  induction ws with
  | nil => exact absurd hc List.not_mem_nil
  | cons w ws ih =>
    rcases ws with _ | ⟨v, ws⟩
    · exact Or.inr ⟨w, List.mem_cons_self, by simpa [List.intercalate] using hc⟩
    · rw [intercalate_cons_cons, List.mem_append, List.mem_cons] at hc
      rcases hc with hc | hc | hc
      · exact Or.inr ⟨w, List.mem_cons_self, hc⟩
      · exact Or.inl hc
      · rcases ih hc with hc | ⟨u, hu, hc⟩
        · exact Or.inl hc
        · exact Or.inr ⟨u, List.mem_cons_of_mem w hu, hc⟩

/-- A text of lexemes begins with a character of a lexeme. -/
theorem isBlank_head?_intercalate {ws : List (List Char)} (h : ∀ w ∈ ws, IsLexeme w) :
    ∀ c ∈ ([' '].intercalate ws).head?, isBlank c = false := by
  intro c hc
  rcases ws with _ | ⟨w, ws⟩
  · exact absurd hc (by simp)
  have hw := h w List.mem_cons_self
  have hhead : ([' '].intercalate (w :: ws)).head? = w.head? := by
    rcases ws with _ | ⟨v, ws⟩
    · simp [List.intercalate]
    · rw [intercalate_cons_cons, List.head?_append_of_ne_nil w hw.ne_nil]
  rw [hhead] at hc
  exact hw.isBlank (List.mem_of_mem_head? hc)

/-- A text of lexemes ends with a character of a lexeme. -/
theorem isBlank_getLast?_intercalate {ws : List (List Char)} (h : ∀ w ∈ ws, IsLexeme w) :
    ∀ c ∈ ([' '].intercalate ws).getLast?, isBlank c = false := by
  intro c hc
  induction ws with
  | nil => exact absurd hc (by simp)
  | cons w ws ih =>
    obtain ⟨hw, hall⟩ := List.forall_mem_cons.mp h
    rcases ws with _ | ⟨v, ws⟩
    · exact hw.isBlank (List.mem_of_mem_getLast? (by simpa [List.intercalate] using hc))
    · -- the words behind the first blank do not come to nothing
      have hne : [' '].intercalate (v :: ws) ≠ [] := fun hnil => by
        have hcut := lexemes_intercalate hall
        rw [hnil] at hcut
        exact absurd hcut (by simp [lexemes])
      rw [intercalate_cons_cons, List.getLast?_append_of_ne_nil _ (List.cons_ne_nil _ _),
        List.getLast?_cons_of_ne_nil hne] at hc
      exact ih hall hc

/-- **A text of lexemes has no blanks at its ends.** -/
theorem trim_intercalate {ws : List (List Char)} (h : ∀ w ∈ ws, IsLexeme w) :
    trim ([' '].intercalate ws) = [' '].intercalate ws :=
  trim_eq_self (isBlank_head?_intercalate h) (isBlank_getLast?_intercalate h)

/-- The lexemes of a string, as strings. -/
theorem mem_lexemesOf {s x : String} : x ∈ lexemesOf s ↔ x.toList ∈ lexemes s.toList := by
  rw [lexemesOf, List.mem_map]
  constructor
  · rintro ⟨w, hw, rfl⟩
    rwa [String.toList_ofList]
  · exact fun h => ⟨x.toList, h, String.ofList_toList⟩

theorem map_toList_lexemesOf (s : String) :
    (lexemesOf s).map String.toList = lexemes s.toList := by
  simp [lexemesOf, Function.comp_def]

theorem lexemesOf_eq_iff {s : String} {l : List String} :
    lexemesOf s = l ↔ lexemes s.toList = l.map String.toList := by
  rw [← map_toList_lexemesOf]
  exact (List.map_injective_iff.mpr fun _ _ => String.toList_inj.mp).eq_iff.symm

/-- A text of lexemes is cut into these. -/
theorem lexemesOf_intercalate {ws : List String} (h : ∀ w ∈ ws, IsLexeme w.toList) :
    lexemesOf (" ".intercalate ws) = ws := by
  have hlist : (" ".intercalate ws).toList = [' '].intercalate (ws.map String.toList) := by
    rw [String.toList_intercalate]
    rfl
  rw [lexemesOf_eq_iff, hlist]
  exact lexemes_intercalate (List.forall_mem_map.mpr h)

end ShiftReduce.Text

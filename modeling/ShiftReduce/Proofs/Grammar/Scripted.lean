import ShiftReduce.Proofs.Grammar.Authored
import ShiftReduce.Proofs.Grammar.Orphan

/-!
# The rows that scripts give

Whatever a script says, its rows have names for left-hand sides, no two of them the same one, and
their alternatives are more than blanks (`ShiftReduce.Script.AreScripted`). There are three ways to
add to a row: further alternatives, going on with the last one, and beginning the first one with a
plain line. None of them touches a left-hand side, and none leaves a blank alternative, so every
line keeps the rows as they should be (`ShiftReduce.Script.Draft.IsSound.read`), and so does a whole
script (`ShiftReduce.Script.areScripted_of_rows`).

So such rows have no defects but uses of the end marker
(`ShiftReduce.Script.AreScripted.problemsOfRows_eq`). What can become of a script is then one of
four things (`ShiftReduce.Script.Verdict`): it has orphans, its rows use the end marker, they say
nothing at all, or it describes a grammar.
-/

namespace ShiftReduce.Script

/-- **Rows as scripts give them.** -/
structure AreScripted (rows : List Row) : Prop where
  /-- No two rows have the same left-hand side. -/
  distinct : (rows.map Row.left).Nodup
  /-- The left-hand sides are names. -/
  named : ∀ r ∈ rows, IsName r.left
  /-- The alternatives are more than blanks. -/
  offered : ∀ r ∈ rows, ∀ alternative ∈ r.right, Row.offers alternative = true

/-! ### Texts that are more than blanks -/

theorem offers_iff_exists {text : String} :
    Row.offers text = true ↔ ∃ c ∈ text.toList, Text.isBlank c = false := by
  simp [Row.offers]

theorem offers_append_left {text : String} (h : Row.offers text = true) (more : String) :
    Row.offers (text ++ more) = true := by
  obtain ⟨c, hc, hblank⟩ := offers_iff_exists.mp h
  exact offers_iff_exists.mpr ⟨c, by simp [hc], hblank⟩

/-- What is left of a text without the blanks at its ends begins with no blank. -/
theorem offers_strip {text : String} (h : Text.strip text ≠ "") :
    Row.offers (Text.strip text) = true := by
  rcases hlist : Text.trim text.toList with _ | ⟨c, rest⟩
  · exact absurd (by rw [Text.strip, hlist]) h
  · refine offers_iff_exists.mpr ⟨c, ?_, Text.isBlank_head?_trim (s := text.toList) ?_⟩
    · rw [Text.strip, String.toList_ofList, hlist]
      exact List.mem_cons_self
    · rw [hlist]
      rfl

theorem exists_of_mem_lines {script : String} {e : ℕ × String} (h : e ∈ Comment.lines script) :
    ∃ line, e.2 = Text.strip line ∧ e.2 ≠ "" := by
  obtain ⟨⟨line, number⟩, -, he⟩ := List.mem_filterMap.mp h
  by_cases hempty : Text.strip line = ""
  · exact absurd he (by simp [hempty])
  · obtain rfl : (number, Text.strip line) = e := by simpa [hempty] using he
    exact ⟨line, rfl, hempty⟩

/-! ### What a line keeps -/

/-- A change to a row that leaves the left-hand side, and no blank alternative where there was
none. -/
structure Keeps (f : Row → Row) : Prop where
  /-- The left-hand side is left. -/
  left_eq : ∀ r, (f r).left = r.left
  /-- There is no blank alternative. -/
  offered : ∀ r, (∀ alternative ∈ r.right, Row.offers alternative = true) →
    ∀ alternative ∈ (f r).right, Row.offers alternative = true

theorem keeps_addAlternatives (text : String) : Keeps (addAlternatives · text) := by
  refine ⟨fun r => ?_, fun r hr alternative hmem => ?_⟩
  · rw [addAlternatives_eq_enlarge]
    rfl
  · rw [addAlternatives_eq_enlarge] at hmem
    rcases List.mem_append.mp hmem with hmem | hmem
    · exact hr alternative hmem
    · obtain ⟨hmem, hlisted⟩ := List.mem_filter.mp hmem
      obtain ⟨piece, -, rfl⟩ := List.mem_map.mp hmem
      exact offers_strip (of_decide_eq_true hlisted).2

theorem keeps_extendLast {text : String} (h : Row.offers text = true) :
    Keeps (extendLast · text) := by
  refine ⟨fun r => ?_, fun r hr alternative hmem => ?_⟩
  · unfold extendLast
    split <;> rfl
  · unfold extendLast at hmem
    split at hmem
    · obtain rfl : alternative = text := by simpa using hmem
      exact h
    · next last hlast =>
      -- the others stay, and the last one is no more blank when it is longer
      rcases List.mem_append.mp hmem with hmem | hmem
      · exact hr alternative (List.dropLast_subset _ hmem)
      · obtain rfl : alternative = last ++ " " ++ text := by simpa using hmem
        rw [String.append_assoc]
        exact offers_append_left (hr last (List.mem_of_getLast? hlast)) _

theorem AreScripted.map_update {rows : List Row} {f : Row → Row} (h : AreScripted rows)
    (hf : Keeps f) (A : Symbol) :
    AreScripted (rows.map fun row => if row.left = A then f row else row) := by
  have hleft : ∀ row : Row, (if row.left = A then f row else row).left = row.left := fun row => by
    split
    · exact hf.left_eq row
    · rfl
  refine ⟨?_, fun r hr => ?_, fun r hr => ?_⟩
  · have hmap : (rows.map fun row => if row.left = A then f row else row).map Row.left =
        rows.map Row.left := by
      rw [List.map_map]
      exact List.map_congr_left fun row _ => hleft row
    rw [hmap]
    exact h.distinct
  · obtain ⟨row, hrow, rfl⟩ := List.mem_map.mp hr
    rw [hleft]
    exact h.named row hrow
  · obtain ⟨row, hrow, rfl⟩ := List.mem_map.mp hr
    split
    · exact hf.offered row (h.offered row hrow)
    · exact h.offered row hrow

namespace Draft

variable {d : Draft} {A : Symbol}

/-- **What holds of every draft**: its rows are as they should be, and the current left-hand side is
that of a row. -/
structure IsSound (d : Draft) : Prop where
  /-- The rows are as they should be. -/
  scripted : AreScripted d.rows
  /-- The current left-hand side is that of a row. -/
  current_mem : ∀ A ∈ d.current, A ∈ d.rows.map Row.left

theorem map_left_update {f : Row → Row} (hf : ∀ r, (f r).left = r.left) (d : Draft) (A : Symbol) :
    (d.update A f).rows.map Row.left = d.rows.map Row.left := by
  rw [update, List.map_map]
  refine List.map_congr_left fun row _ => ?_
  rw [Function.comp_apply]
  split
  · exact hf row
  · rfl

theorem IsSound.update {f : Row → Row} (h : d.IsSound) (hf : Keeps f) (A : Symbol) :
    (d.update A f).IsSound := by
  refine ⟨h.scripted.map_update hf A, fun B hB => ?_⟩
  rw [map_left_update hf.left_eq]
  exact h.current_mem B hB

theorem IsSound.select (h : d.IsSound) (hA : IsName A) : (d.select A).IsSound := by
  unfold Draft.select
  split
  · next hany =>
    refine ⟨h.scripted, fun B hB => ?_⟩
    obtain rfl : A = B := by simpa using hB
    obtain ⟨r, hr, hleft⟩ := List.any_eq_true.mp hany
    exact List.mem_map.mpr ⟨r, hr, of_decide_eq_true hleft⟩
  · next hany =>
    have hnew : A ∉ d.rows.map Row.left := by
      simpa using hany
    refine ⟨⟨?_, ?_, ?_⟩, fun B hB => ?_⟩
    · rw [List.map_append]
      refine h.scripted.distinct.append (List.nodup_singleton A) ?_
      exact List.disjoint_singleton.mpr hnew
    · intro r hr
      rcases List.mem_append.mp hr with hr | hr
      · exact h.scripted.named r hr
      · rw [List.mem_singleton.mp hr]
        exact hA
    · intro r hr
      rcases List.mem_append.mp hr with hr | hr
      · exact h.scripted.offered r hr
      · rw [List.mem_singleton.mp hr]
        exact List.forall_mem_nil _
    · obtain rfl : A = B := by simpa using hB
      simp

/-- **Every line keeps the rows as they should be.** -/
theorem IsSound.read {line : String} (h : d.IsSound) (hline : Row.offers line = true)
    (number : ℕ) : (d.read number (.ofText line)).IsSound := by
  by_cases hproduction : IsProduction line
  · obtain ⟨A, rest, hproduction⟩ := hproduction
    rw [hproduction.ofText]
    exact (h.select hproduction.1).update (keeps_addAlternatives _) A
  · rcases hcurrent : d.current with _ | A
    -- an orphan is only reported
    · rw [read_orphan hcurrent hproduction]
      exact ⟨h.scripted, h.current_mem⟩
    · rcases line_cases line with hbad | ⟨rest, rfl⟩ | hplain
      · exact absurd hbad hproduction
      · rw [ofText_bar]
        simp only [Draft.read, hcurrent]
        exact h.update (keeps_addAlternatives rest) A
      · rw [hplain]
        simp only [Draft.read, hcurrent]
        exact h.update (keeps_extendLast hline) A

theorem IsSound.readLines {numbered : List (ℕ × String)} (h : d.IsSound)
    (hlines : ∀ e ∈ numbered, Row.offers e.2 = true) : (d.readLines numbered).IsSound := by
  induction numbered generalizing d with
  | nil => exact h
  | cons e numbered ih =>
    obtain ⟨he, hlater⟩ := List.forall_mem_cons.mp hlines
    exact ih (h.read he e.1) hlater

theorem isSound_empty : ({} : Draft).IsSound where
  scripted := ⟨List.nodup_nil, List.forall_mem_nil _, List.forall_mem_nil _⟩
  current_mem A hA := by simp at hA

end Draft

theorem isSound_read (script : String) : (read script).IsSound := by
  rw [read_eq_readLines]
  refine Draft.isSound_empty.readLines fun e he => ?_
  obtain ⟨line, hline, hne⟩ := exists_of_mem_lines he
  rw [hline] at hne ⊢
  exact offers_strip hne

variable {script : String} {rs : List Row}

/-- **The rows of a script are as they should be.** -/
theorem areScripted_of_rows (h : rows script = .ok rs) : AreScripted rs := by
  obtain ⟨-, rfl⟩ := rows_eq_ok_iff.mp h
  exact (isSound_read script).scripted

theorem ofScript_of_rows (h : rows script = .ok rs) :
    Grammar.ofScript script = Grammar.ofRows rs := by
  rw [Grammar.ofScript, h]
  rfl

theorem ofScript_of_error {problems : List Problem} (h : rows script = .error problems) :
    Grammar.ofScript script = .error problems := by
  rw [Grammar.ofScript, h]
  rfl

/-! ### What is wrong with such rows -/

namespace AreScripted

theorem lhs_eq (h : AreScripted rs) {r : Row} (hr : r ∈ rs) : r.lhs = r.left :=
  (h.named r hr).strip_eq

theorem lhs_ne (h : AreScripted rs) {r : Row} (hr : r ∈ rs) : r.lhs ≠ "" := by
  rw [h.lhs_eq hr]
  exact (h.named r hr).ne_empty

/-- **Nothing is wrong with the left-hand sides.** -/
theorem allLeftProblems_eq_nil (h : AreScripted rs) : Row.allLeftProblems [] rs = [] := by
  have hdefects : Grammar.leftDefects rs = [] := by
    rw [Grammar.leftDefects, List.append_eq_nil_iff, List.append_eq_nil_iff,
      Grammar.emptyLefts_eq_nil, Grammar.spacedLefts_eq_nil, Grammar.repeatedLefts_eq_nil]
    refine ⟨⟨⟨fun r hr hempty => absurd hempty (h.lhs_ne hr), fun r hr => ?_⟩, fun r hr => ?_⟩, ?_⟩
    · exact h.lhs_ne (List.mem_of_mem_head? hr)
    · rw [h.lhs_eq hr]
      exact fun c => (h.named r hr).isBlank
    · have hmap : rs.map Row.lhs = rs.map Row.left := List.map_congr_left fun r => h.lhs_eq
      rw [Grammar.leftSides, hmap]
      exact h.distinct.filter _
  exact (hdefects ▸ Grammar.leftDefects_perm rs).nil_eq.symm

/-- A row says something if it has an alternative or is ticked. -/
theorem hasContent_iff (h : AreScripted rs) {r : Row} (hr : r ∈ rs) :
    r.hasContent = true ↔ r.right ≠ [] ∨ r.hasEpsilon = true := by
  rw [Row.hasContent, Bool.or_eq_true, List.any_eq_true]
  refine or_congr_left ⟨?_, fun hne => ?_⟩
  · rintro ⟨alternative, hmem, -⟩
    exact List.ne_nil_of_mem hmem
  · obtain ⟨alternative, hmem⟩ := List.exists_mem_of_ne_nil _ hne
    exact ⟨alternative, hmem, h.offered r hr alternative hmem⟩

/-- The rows say something. -/
theorem rulesOfRows_ne_nil_iff (h : AreScripted rs) :
    Grammar.rulesOfRows rs ≠ [] ↔ ∃ r ∈ rs, r.right ≠ [] ∨ r.hasEpsilon = true := by
  rw [Grammar.rulesOfRows_ne_nil]
  refine exists_congr fun r => and_congr_right fun hr => ?_
  rw [h.hasContent_iff hr]
  exact and_iff_right (h.lhs_ne hr)

/-- **What is wrong with such rows** is that they use the end marker, or else that they say
nothing. -/
theorem problemsOfRows_eq (h : AreScripted rs) : Grammar.problemsOfRows rs =
    if Grammar.reservedUses rs = [] then
      if Grammar.rulesOfRows rs = [] then [.noProductions] else []
    else Grammar.reservedUses rs := by
  rw [Grammar.problemsOfRows, h.allLeftProblems_eq_nil, List.nil_append, ← Grammar.reservedUses_eq]
  rcases Grammar.reservedUses rs with _ | ⟨p, later⟩
  · simp
  · simp

/-- The end marker is used in some alternative. -/
theorem reservedUses_ne_nil_iff (h : AreScripted rs) : Grammar.reservedUses rs ≠ [] ↔
    ∃ r ∈ rs, ∃ alternative ∈ r.right, '$' ∈ alternative.toList := by
  rw [ne_eq, Grammar.reservedUses_eq_nil]
  constructor
  · intro hused
    by_contra hnone
    push Not at hnone
    exact hused fun r hr _ => hnone r hr
  · rintro ⟨r, hr, alternative, hmem, hmark⟩ hnone
    exact hnone r hr (h.lhs_ne hr) alternative hmem hmark

end AreScripted

/-! ### What becomes of a script -/

/-- **What can become of a script.** -/
inductive Verdict (script : String) : Except (List Problem) Grammar → Prop
  /-- It has orphans, and these are reported. -/
  | orphaned (horphans : orphans script ≠ []) :
      Verdict script (.error ((orphans script).map fun e => .orphanLine e.1))
  /-- Its rows use the end marker, and these uses are reported. -/
  | reserved {rs : List Row} (hrows : rows script = .ok rs)
      (hused : Grammar.reservedUses rs ≠ []) : Verdict script (.error (Grammar.reservedUses rs))
  /-- Its rows say nothing. -/
  | silent {rs : List Row} (hrows : rows script = .ok rs) (hused : Grammar.reservedUses rs = [])
      (hnone : ∀ r ∈ rs, r.right = [] ∧ r.hasEpsilon = false) :
      Verdict script (.error [.noProductions])
  /-- It describes a grammar. -/
  | described {rs : List Row} {g : Grammar} (hrows : rows script = .ok rs)
      (hbuilt : Grammar.ofRows rs = .ok g) (hused : Grammar.reservedUses rs = [])
      (hsome : ∃ r ∈ rs, r.right ≠ [] ∨ r.hasEpsilon = true) : Verdict script (.ok g)

theorem verdict_ofScript (script : String) : Verdict script (Grammar.ofScript script) := by
  rcases hrows : rows script with problems | rs
  · obtain ⟨horphans, hproblems⟩ := rows_eq_error_iff.mp hrows
    rw [ofScript_of_error hrows, hproblems]
    exact .orphaned horphans
  have hscripted := areScripted_of_rows hrows
  have hproblems := hscripted.problemsOfRows_eq
  rw [ofScript_of_rows hrows]
  -- the rows have no other defects, so what is found depends on the end marker and the rules alone
  by_cases hused : Grammar.reservedUses rs = []
  · rw [if_pos hused] at hproblems
    by_cases hrules : Grammar.rulesOfRows rs = []
    · rw [if_pos hrules] at hproblems
      rw [Grammar.ofRows_eq_error_iff.mpr ⟨List.cons_ne_nil _ _, hproblems⟩]
      refine .silent hrows hused fun r hr => ?_
      have hnone := mt hscripted.rulesOfRows_ne_nil_iff.mpr (not_not.mpr hrules)
      push Not at hnone
      simpa using hnone r hr
    · rw [if_neg hrules] at hproblems
      obtain ⟨g, hbuilt⟩ :=
        Grammar.exists_ofRows_iff.mpr (Grammar.problemsOfRows_eq_nil_iff.mp hproblems)
      rw [hbuilt]
      exact .described hrows hbuilt hused (hscripted.rulesOfRows_ne_nil_iff.mp hrules)
  · rw [if_neg hused] at hproblems
    rw [Grammar.ofRows_eq_error_iff.mpr ⟨hused, hproblems⟩]
    exact .reserved hrows hused

/-- A script describes no grammar if it has orphans, uses the end marker or says nothing. -/
theorem Verdict.exists_error_iff {outcome : Except (List Problem) Grammar}
    (h : Verdict script outcome) : (∃ problems, outcome = .error problems) ↔
      orphans script ≠ [] ∨ ∃ rs, rows script = .ok rs ∧
        ((∃ r ∈ rs, ∃ alternative ∈ r.right, '$' ∈ alternative.toList) ∨
          ∀ r ∈ rs, r.right = [] ∧ r.hasEpsilon = false) := by
  cases h with
  | orphaned horphans => exact iff_of_true ⟨_, rfl⟩ (Or.inl horphans)
  | reserved hrows hused =>
    have hmarked := (areScripted_of_rows hrows).reservedUses_ne_nil_iff.mp hused
    exact iff_of_true ⟨_, rfl⟩ (Or.inr ⟨_, hrows, Or.inl hmarked⟩)
  | silent hrows _ hnone => exact iff_of_true ⟨_, rfl⟩ (Or.inr ⟨_, hrows, Or.inr hnone⟩)
  | described hrows _ hused hsome =>
    refine iff_of_false (by simp) ?_
    rintro (horphans | ⟨rs, hrs, hbad⟩)
    · exact horphans (rows_eq_ok_iff.mp hrows).1
    · obtain rfl := Except.ok.inj (hrs.symm.trans hrows)
      rcases hbad with hmarked | hnone
      · exact (areScripted_of_rows hrows).reservedUses_ne_nil_iff.mpr hmarked hused
      · obtain ⟨r, hr, hcontent⟩ := hsome
        simp [hnone r hr] at hcontent

/-- **Scripts are judged by their orphans and by the end marker.** The rows that a script gives have
left-hand sides that differ, are not empty and hold no blank, and their alternatives are more than
blanks; so there is nothing to report of them but the uses of the end marker, and where there are
none, that they say nothing. There is no grammar exactly if the script has orphans, or else some
alternative of its rows holds the end marker, or no row has an alternative or a tick. -/
theorem ofScript_judged (script : String) :
    (∀ rs, rows script = .ok rs →
      (rs.map Row.left).Nodup ∧
      (∀ r ∈ rs, r.left ≠ "" ∧ (∀ c ∈ r.left.toList, Text.isBlank c = false) ∧
        ∀ alternative ∈ r.right, Text.strip alternative ≠ "") ∧
      ∀ problems, Grammar.ofRows rs = .error problems →
        problems = if Grammar.reservedUses rs = [] then [.noProductions]
          else Grammar.reservedUses rs) ∧
    ((∃ problems, Grammar.ofScript script = .error problems) ↔
      orphans script ≠ [] ∨ ∃ rs, rows script = .ok rs ∧
        ((∃ r ∈ rs, ∃ alternative ∈ r.right, '$' ∈ alternative.toList) ∨
          ∀ r ∈ rs, r.right = [] ∧ r.hasEpsilon = false)) ∧
    Verdict script (Grammar.ofScript script) := by
  refine ⟨fun rs hrows => ?_, (verdict_ofScript script).exists_error_iff, verdict_ofScript script⟩
  have h := areScripted_of_rows hrows
  refine ⟨h.distinct, fun r hr => ⟨(h.named r hr).ne_empty, fun c => (h.named r hr).isBlank,
    fun alternative hmem => Grammar.offers_iff.mp (h.offered r hr alternative hmem)⟩, ?_⟩
  intro problems hproblems
  obtain ⟨hne, rfl⟩ := Grammar.ofRows_eq_error_iff.mp hproblems
  rw [h.problemsOfRows_eq] at hne ⊢
  by_cases hrules : Grammar.rulesOfRows rs = []
  · rw [if_pos hrules]
  · rw [if_neg hrules] at hne ⊢
    have hused : Grammar.reservedUses rs ≠ [] := fun hused => hne (if_pos hused)
    rw [if_neg hused, if_neg hused]

/-- A script that goes on with an alternative, comes back to a left-hand side and uses the end
marker. -/
def markedScript : String :=
  "A -> a | eps // x\n  b $ |\nB:\n| c\nA = d"

theorem ofScript_judged_marked :
    rows markedScript =
        .ok [⟨"row-1", "A", ["a b $ |", "d"], true⟩, ⟨"row-2", "B", ["c"], false⟩] ∧
      Grammar.ofRows [⟨"row-1", "A", ["a b $ |", "d"], true⟩, ⟨"row-2", "B", ["c"], false⟩] =
        .error [.reservedSymbol "row-1" 0] := by
  have hrows : rows markedScript =
      .ok [⟨"row-1", "A", ["a b $ |", "d"], true⟩, ⟨"row-2", "B", ["c"], false⟩] := by
    decide +kernel
  obtain ⟨hrs, herror, -⟩ := ofScript_judged markedScript
  obtain ⟨problems, hproblems⟩ := herror.mpr (Or.inr ⟨_, hrows, Or.inl
    ⟨⟨"row-1", "A", ["a b $ |", "d"], true⟩, by simp, "a b $ |", by simp, by decide⟩⟩)
  rw [ofScript_of_rows hrows] at hproblems
  refine ⟨hrows, ?_⟩
  rw [hproblems, (hrs _ hrows).2.2 problems hproblems]
  decide +kernel

end ShiftReduce.Script

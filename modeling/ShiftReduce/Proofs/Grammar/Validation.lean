import Mathlib.Data.List.Induction
import Mathlib.Data.List.Nodup
import ShiftReduce.Grammar.OfRows
import ShiftReduce.Proofs.Grammar.Built
import ShiftReduce.Proofs.Text.Lexeme

/-!
# What is wrong with a list of rows

The problems of a list of rows are found row by row, and what is found at a row depends on the rows
before it: a left-hand side that comes again brings a problem for the row it comes in, and the
second time one for the first row too. Here the problems are listed by kind, each kind by a
condition on a row in the whole list (`ShiftReduce.Grammar.defects`). The two lists hold the same
problems, each as often as the other (`ShiftReduce.Grammar.defects_perm`): of a left-hand side that
several rows have, each of these rows is reported once.

A list of rows is *admissible* (`ShiftReduce.Grammar.Admissible`) if it has none of these defects
and yields a production. These are the rows that describe a grammar
(`ShiftReduce.Grammar.exists_ofRows_iff`), and that there is no production is reported where nothing
else is (`ShiftReduce.Grammar.ofRows_validates`).
-/

namespace ShiftReduce

namespace Grammar

/-! ### Defects, kind by kind -/

/-- The rows without a left-hand side that need one: those that offer an alternative, and the
first. -/
def emptyLefts (rows : List Row) : List Problem :=
  rows.zipIdx.filterMap fun (r, k) =>
    if r.lhs = "" ∧ (r.hasContent ∨ k = 0) then some (.emptyLeft r.id) else none

/-- The rows with a blank inside the left-hand side. -/
def spacedLefts (rows : List Row) : List Problem :=
  (rows.filter fun r => r.lhs.toList.any Text.isBlank).map fun r => .spacedLeft r.id

/-- The rows whose left-hand side other rows have, too. -/
def repeatedLefts (rows : List Row) : List Problem :=
  (rows.filter fun r => 2 ≤ (leftSides rows).count r.lhs).map fun r => .duplicateLeft r.lhs r.id

/-- The alternatives that hold the end marker, of the rows with a left-hand side. -/
def reservedUses (rows : List Row) : List Problem :=
  (rows.filter (·.lhs ≠ "")).flatMap fun r => r.right.zipIdx.filterMap fun (alternative, k) =>
    if '$' ∈ alternative.toList then some (.reservedSymbol r.id k) else none

/-- The defects of left-hand sides. -/
def leftDefects (rows : List Row) : List Problem :=
  emptyLefts rows ++ spacedLefts rows ++ repeatedLefts rows

/-- **The defects of a list of rows**, kind by kind. -/
def defects (rows : List Row) : List Problem :=
  leftDefects rows ++ reservedUses rows

/-- **Admissible rows**: the first has a left-hand side, a row without one offers nothing, the
left-hand sides hold no blanks and differ, no alternative of a row with a left-hand side holds the
end marker, and some row with a left-hand side has an alternative. -/
structure Admissible (rows : List Row) : Prop where
  /-- There is a first row, and it has a left-hand side. -/
  first : ∃ r rest, rows = r :: rest ∧ r.lhs ≠ ""
  /-- A row without a left-hand side offers nothing. -/
  blank : ∀ r ∈ rows, r.lhs = "" → r.hasContent = false
  /-- A left-hand side holds no blank. -/
  unspaced : ∀ r ∈ rows, ∀ c ∈ r.lhs.toList, Text.isBlank c = false
  /-- No two rows have the same left-hand side. -/
  distinct : (leftSides rows).Nodup
  /-- No alternative of a row with a left-hand side holds the end marker. -/
  unreserved : ∀ r ∈ rows, r.lhs ≠ "" → ∀ alternative ∈ r.right, '$' ∉ alternative.toList
  /-- Some row with a left-hand side has an alternative. -/
  productive : ∃ r ∈ rows, r.lhs ≠ "" ∧ r.hasContent = true

theorem leftSides_eq_map (rows : List Row) :
    leftSides rows = (rows.filter (·.lhs ≠ "")).map Row.lhs := by
  rw [leftSides, List.filter_map]
  rfl

/-- In admissible rows a left-hand side tells its row. -/
theorem Admissible.eq_of_lhs_eq {rows : List Row} (h : Admissible rows) {r s : Row} (hr : r ∈ rows)
    (hs : s ∈ rows) (hne : s.lhs ≠ "") (heq : r.lhs = s.lhs) : r = s := by
  have hdistinct := h.distinct
  rw [leftSides_eq_map] at hdistinct
  have hnamed : ∀ {t : Row}, t ∈ rows → t.lhs ≠ "" → t ∈ rows.filter (·.lhs ≠ "") :=
    fun ht hne => List.mem_filter.mpr ⟨ht, decide_eq_true hne⟩
  exact List.inj_on_of_nodup_map hdistinct (hnamed hr (heq ▸ hne)) (hnamed hs hne) heq

/-! ### One row more -/

section Append

variable {rows before : List Row} {r : Row}

theorem allLeftProblems_append :
    Row.allLeftProblems before (rows ++ [r]) =
      Row.allLeftProblems before rows ++ r.leftProblems (before ++ rows) := by
  induction rows generalizing before with
  | nil => simp [Row.allLeftProblems]
  | cons s rows ih =>
    rw [List.cons_append, Row.allLeftProblems, ih, Row.allLeftProblems, List.append_assoc,
      List.append_assoc, List.singleton_append]

theorem leftSides_append : leftSides (rows ++ [r]) =
    leftSides rows ++ if r.lhs = "" then [] else [r.lhs] := by
  by_cases hr : r.lhs = "" <;> simp [leftSides, hr]

theorem empty_notMem_leftSides : "" ∉ leftSides rows := by
  simp [leftSides]

/-- A left-hand side comes as often as there are rows that have it. -/
theorem count_leftSides {A : Symbol} (hA : A ≠ "") :
    (leftSides rows).count A = (rows.filter (·.lhs = A)).length := by
  induction rows with
  | nil => rfl
  | cons s rows ih =>
    by_cases hs : s.lhs = A
    · subst hs
      simpa [leftSides, hA] using ih
    · by_cases hempty : s.lhs = ""
      · simpa [leftSides, hempty, hA.symm] using ih
      · simpa [leftSides, hempty, hs] using ih

theorem emptyLefts_append : emptyLefts (rows ++ [r]) = emptyLefts rows ++
    if r.lhs = "" ∧ (r.hasContent ∨ rows = []) then [.emptyLeft r.id] else [] := by
  rw [emptyLefts, emptyLefts, List.zipIdx_append, List.filterMap_append]
  refine congrArg (_ ++ ·) ?_
  by_cases h : r.lhs = "" ∧ (r.hasContent ∨ rows = []) <;> simp [h]

theorem spacedLefts_append : spacedLefts (rows ++ [r]) =
    spacedLefts rows ++ if r.lhs.toList.any Text.isBlank then [.spacedLeft r.id] else [] := by
  rw [spacedLefts, spacedLefts, List.filter_append, List.map_append]
  refine congrArg (_ ++ ·) ?_
  by_cases h : r.lhs.toList.any Text.isBlank = true <;> simp [h]

/-- A row without a left-hand side repeats none. -/
theorem repeatedLefts_append_of_eq (hr : r.lhs = "") :
    repeatedLefts (rows ++ [r]) = repeatedLefts rows := by
  have hsides : leftSides (rows ++ [r]) = leftSides rows := by simp [leftSides_append, hr]
  have hnone : (leftSides rows).count r.lhs = 0 := by
    rw [hr]
    exact List.count_eq_zero_of_not_mem empty_notMem_leftSides
  rw [repeatedLefts, repeatedLefts, hsides, List.filter_append]
  simp [hnone]

/-- What a filter lets through that has two grounds to do so, if none meets both. -/
theorem filter_or_perm {α : Type} (p q : α → Bool) (l : List α)
    (h : ∀ a ∈ l, ¬(p a = true ∧ q a = true)) :
    (l.filter fun a => p a || q a).Perm (l.filter p ++ l.filter q) := by
  induction l with
  | nil => exact List.Perm.refl []
  | cons a l ih =>
    have hl := ih fun b hb => h b (List.mem_cons_of_mem a hb)
    have ha := h a List.mem_cons_self
    cases hp : p a with
    | true =>
      have hq : q a = false := by simpa [hp] using ha
      simpa [hp, hq] using hl
    | false =>
      cases hq : q a with
      | true =>
        simp only [List.filter_cons, hp, hq, Bool.or_true, if_true, Bool.false_eq_true, if_false]
        exact (hl.cons a).trans List.perm_middle.symm
      | false => simpa [hp, hq] using hl

/-- With one row more, the old rows are judged with it in mind, and the new one by them. -/
theorem repeatedLefts_append (hr : r.lhs ≠ "") :
    repeatedLefts (rows ++ [r]) =
      (rows.filter fun s => 2 ≤ (leftSides rows).count s.lhs + if r.lhs = s.lhs then 1 else 0).map
        (fun s => .duplicateLeft s.lhs s.id) ++
      if 1 ≤ (leftSides rows).count r.lhs then [.duplicateLeft r.lhs r.id] else [] := by
  have hcount : ∀ A, (leftSides (rows ++ [r])).count A =
      (leftSides rows).count A + if r.lhs = A then 1 else 0 := fun A => by
    simp [leftSides_append, hr, List.count_append, List.count_singleton]
  rw [repeatedLefts, List.filter_append, List.map_append]
  simp only [hcount]
  refine congrArg (_ ++ ·) ?_
  by_cases h : 1 ≤ (leftSides rows).count r.lhs <;> simp [h]

/-- A left-hand side that is new, or was repeated before, brings at most the new row. -/
theorem repeatedLefts_append_of_count_ne_one (hr : r.lhs ≠ "")
    (hone : (leftSides rows).count r.lhs ≠ 1) :
    repeatedLefts (rows ++ [r]) = repeatedLefts rows ++
      if 1 ≤ (leftSides rows).count r.lhs then [.duplicateLeft r.lhs r.id] else [] := by
  rw [repeatedLefts_append hr, repeatedLefts]
  have hold : (rows.filter fun s =>
      2 ≤ (leftSides rows).count s.lhs + if r.lhs = s.lhs then 1 else 0) =
      rows.filter fun s => 2 ≤ (leftSides rows).count s.lhs := by
    refine List.filter_congr fun s _ => ?_
    by_cases heq : r.lhs = s.lhs
    · rw [if_pos heq, ← heq, decide_eq_decide]
      omega
    · rw [if_neg heq, Nat.add_zero]
  rw [hold]

/-- **A left-hand side that comes for the second time** brings the new row and the first one. -/
theorem repeatedLefts_append_of_filter {first : Row} (hr : r.lhs ≠ "")
    (hfilter : rows.filter (·.lhs = r.lhs) = [first]) :
    (repeatedLefts (rows ++ [r])).Perm (repeatedLefts rows ++
      [.duplicateLeft r.lhs r.id, .duplicateLeft r.lhs first.id]) := by
  have hone : (leftSides rows).count r.lhs = 1 := by rw [count_leftSides hr, hfilter]; rfl
  have hfirst : first.lhs = r.lhs := by
    have hmem : first ∈ rows.filter (·.lhs = r.lhs) := hfilter ▸ List.mem_cons_self
    exact of_decide_eq_true (List.mem_filter.mp hmem).2
  -- an old row is reported now if it was so before or is the first one
  have hold : (rows.filter fun s =>
      2 ≤ (leftSides rows).count s.lhs + if r.lhs = s.lhs then 1 else 0) =
      rows.filter fun s =>
        decide (2 ≤ (leftSides rows).count s.lhs) || decide (s.lhs = r.lhs) := by
    refine List.filter_congr fun s _ => ?_
    by_cases heq : s.lhs = r.lhs
    · simp [heq, hone]
    · simp [heq, Ne.symm heq]
  have hboth : ∀ s ∈ rows, ¬(decide (2 ≤ (leftSides rows).count s.lhs) = true ∧
      decide (s.lhs = r.lhs) = true) := by
    rintro s - ⟨htwo, heq⟩
    rw [decide_eq_true_eq] at htwo heq
    rw [heq, hone] at htwo
    omega
  have hperm := filter_or_perm _ _ rows hboth
  rw [hfilter] at hperm
  rw [repeatedLefts_append hr, hold, if_pos (Nat.le_of_eq hone.symm)]
  refine ((hperm.map _).append_right _).trans ?_
  rw [List.map_append, List.append_assoc, List.map_singleton, hfirst]
  exact (List.Perm.swap _ _ []).append_left _

/-- **One row more brings the defects that are found at it.** -/
theorem leftDefects_append :
    (leftDefects (rows ++ [r])).Perm (leftDefects rows ++ r.leftProblems rows) := by
  by_cases hr : r.lhs = ""
  · have hblank : r.lhs.toList.any Text.isBlank = false := by simp [hr]
    have hproblems : r.leftProblems rows =
        if r.lhs = "" ∧ (r.hasContent ∨ rows = []) then [.emptyLeft r.id] else [] := by
      simp [Row.leftProblems, hr]
    rw [leftDefects, emptyLefts_append, spacedLefts_append, repeatedLefts_append_of_eq hr,
      hblank, hproblems, leftDefects]
    rw [List.perm_iff_count]
    intro p
    simp only [List.count_append, Bool.false_eq_true, if_false, List.count_nil]
    omega
  · have hempty : ¬(r.lhs = "" ∧ (r.hasContent ∨ rows = [])) := fun h => hr h.1
    have hcount : (leftSides rows).count r.lhs = (rows.filter (·.lhs = r.lhs)).length :=
      count_leftSides hr
    rw [leftDefects, emptyLefts_append, spacedLefts_append, if_neg hempty, Row.leftProblems,
      if_neg hr, leftDefects]
    -- by how often the left-hand side came before
    rcases hfilter : rows.filter (·.lhs = r.lhs) with _ | ⟨first, _ | ⟨second, later⟩⟩
    · rw [hfilter, List.length_nil] at hcount
      have hnew : ¬1 ≤ (leftSides rows).count r.lhs := by omega
      rw [hfilter, repeatedLefts_append_of_count_ne_one hr (by omega), if_neg hnew,
        List.perm_iff_count]
      intro p
      simp only [List.count_append, List.count_nil]
      omega
    · have hrepeated := repeatedLefts_append_of_filter hr hfilter
      rw [List.perm_iff_count] at hrepeated
      rw [hfilter, List.perm_iff_count]
      intro p
      have hp := hrepeated p
      simp only [List.count_append, List.count_nil] at hp ⊢
      omega
    · rw [hfilter, List.length_cons, List.length_cons] at hcount
      have hone : 1 ≤ (leftSides rows).count r.lhs := by omega
      rw [hfilter, repeatedLefts_append_of_count_ne_one hr (by omega), if_pos hone,
        List.perm_iff_count]
      intro p
      simp only [List.count_append, List.count_nil]
      omega

end Append

/-! ### The problems of a list of rows -/

theorem leftDefects_perm (rows : List Row) :
    (leftDefects rows).Perm (Row.allLeftProblems [] rows) := by
  induction rows using List.reverseRecOn with
  | nil => exact List.Perm.refl []
  | append_singleton rows r ih =>
    rw [allLeftProblems_append, List.nil_append]
    exact leftDefects_append.trans (ih.append_right _)

/-- The end marker is a lexeme of a text that holds it. -/
theorem endMarker_mem_lexemesOf {s : String} : endMarker ∈ Text.lexemesOf s ↔ '$' ∈ s.toList :=
  Text.mem_lexemesOf.trans (Text.mem_lexemes_iff_of_isMark (by decide))

theorem reservedUses_eq (rows : List Row) : reservedUses rows = rows.flatMap Row.rightProblems := by
  induction rows with
  | nil => rfl
  | cons r rows ih =>
    rw [List.flatMap_cons, ← ih]
    by_cases hr : r.lhs = "" <;>
      simp [reservedUses, Row.rightProblems, hr, endMarker_mem_lexemesOf]

/-- **The defects are the problems that are found row by row.** -/
theorem defects_perm (rows : List Row) :
    (defects rows).Perm (Row.allLeftProblems [] rows ++ rows.flatMap Row.rightProblems) := by
  rw [defects, reservedUses_eq]
  exact (leftDefects_perm rows).append_right _

/-- The symbols of a right-hand side are lexemes. -/
theorem isLexeme_of_mem_bodies {r : Row} {body : List Symbol} (hbody : body ∈ r.bodies)
    {x : Symbol} (hx : x ∈ body) : Text.IsLexeme x.toList := by
  rcases List.mem_append.mp hbody with hbody | hbody
  · split at hbody
    · obtain rfl := List.mem_singleton.mp hbody
      exact absurd hx List.not_mem_nil
    · exact absurd hbody List.not_mem_nil
  · obtain ⟨alternative, -, rfl⟩ := List.mem_map.mp hbody
    exact Text.isLexeme_of_mem_lexemes (Text.mem_lexemesOf.mp hx)

/-- An alternative has symbols exactly if it holds something other than blanks. -/
theorem lexemesOf_eq_nil_iff {s : String} : Text.lexemesOf s = [] ↔ Row.offers s = false := by
  rw [Text.lexemesOf, List.map_eq_nil_iff, Text.lexemes_eq_nil_iff, Row.offers, Bool.not_eq_false']

/-- A row gives rules exactly if it has an alternative. -/
theorem bodies_ne_nil {r : Row} : r.bodies ≠ [] ↔ r.hasContent = true := by
  have hright : (r.right.filter Row.offers).map Text.lexemesOf = [] ↔
      ¬r.right.any Row.offers = true := by
    rw [List.map_eq_nil_iff, List.filter_eq_nil_iff]
    simp
  cases h : r.hasEpsilon with
  | true => simp [Row.bodies, Row.hasContent, h]
  | false =>
    rw [Row.bodies, Row.hasContent, h, Bool.or_false, if_neg (by simp), List.nil_append, ne_eq,
      hright, not_not]

theorem rulesOfRows_ne_nil {rows : List Row} :
    rulesOfRows rows ≠ [] ↔ ∃ r ∈ rows, r.lhs ≠ "" ∧ r.hasContent = true := by
  constructor
  · intro h
    obtain ⟨⟨A, body⟩, hrule⟩ := List.exists_mem_of_ne_nil _ h
    obtain ⟨r, hr, hne, -, hbody⟩ := mem_rulesOfRows.mp hrule
    exact ⟨r, hr, hne, bodies_ne_nil.mp (List.ne_nil_of_mem hbody)⟩
  · rintro ⟨r, hr, hne, hcontent⟩
    obtain ⟨body, hbody⟩ := List.exists_mem_of_ne_nil _ (bodies_ne_nil.mpr hcontent)
    exact List.ne_nil_of_mem (mem_rulesOfRows.mpr ⟨r, hr, hne, rfl, hbody⟩)

/-! ### Admissible rows -/

theorem emptyLefts_eq_nil {rows : List Row} : emptyLefts rows = [] ↔
    (∀ r ∈ rows, r.lhs = "" → r.hasContent = false) ∧ ∀ r ∈ rows.head?, r.lhs ≠ "" := by
  induction rows using List.reverseRecOn with
  | nil => simp [emptyLefts]
  | append_singleton rows r ih =>
    rw [emptyLefts_append, List.append_eq_nil_iff, ih]
    rcases rows with _ | ⟨s, rows⟩
    · by_cases hr : r.lhs = "" <;> simp [hr]
    · by_cases hr : r.lhs = ""
      · cases hcontent : r.hasContent <;> simp [hr, hcontent, or_imp, forall_and]
      · simp [hr, or_imp, forall_and]

theorem spacedLefts_eq_nil {rows : List Row} : spacedLefts rows = [] ↔
    ∀ r ∈ rows, ∀ c ∈ r.lhs.toList, Text.isBlank c = false := by
  simp [spacedLefts, List.filter_eq_nil_iff]

theorem repeatedLefts_eq_nil {rows : List Row} :
    repeatedLefts rows = [] ↔ (leftSides rows).Nodup := by
  rw [repeatedLefts, List.map_eq_nil_iff, List.filter_eq_nil_iff, List.nodup_iff_count_le_one]
  constructor
  · intro h A
    by_cases hA : A ∈ leftSides rows
    · obtain ⟨-, r, hr, rfl⟩ := mem_leftSides.mp hA
      have hr' := h r hr
      rw [decide_eq_true_eq] at hr'
      omega
    · rw [List.count_eq_zero_of_not_mem hA]
      omega
  · intro h r _ htwo
    rw [decide_eq_true_eq] at htwo
    have hone := h r.lhs
    omega

theorem reservedUses_eq_nil {rows : List Row} : reservedUses rows = [] ↔
    ∀ r ∈ rows, r.lhs ≠ "" → ∀ alternative ∈ r.right, '$' ∉ alternative.toList := by
  simp only [reservedUses, List.flatMap_eq_nil_iff, List.mem_filter, decide_eq_true_eq,
    List.filterMap_eq_nil_iff, and_imp, Prod.forall]
  refine forall₃_congr fun r hr hne => ?_
  constructor
  · intro h alternative halt
    obtain ⟨k, hk⟩ := List.mem_iff_getElem?.mp halt
    simpa using h alternative k (List.mem_zipIdx_iff_getElem?.mpr hk)
  · intro h alternative k hk
    rw [if_neg (h alternative (List.fst_mem_of_mem_zipIdx hk))]

/-- **Rows are admissible if they have no defect and yield a production.** -/
theorem admissible_iff {rows : List Row} :
    Admissible rows ↔ defects rows = [] ∧ rulesOfRows rows ≠ [] := by
  rw [defects, leftDefects, List.append_eq_nil_iff, List.append_eq_nil_iff, List.append_eq_nil_iff,
    emptyLefts_eq_nil, spacedLefts_eq_nil, repeatedLefts_eq_nil, reservedUses_eq_nil,
    rulesOfRows_ne_nil]
  constructor
  · rintro ⟨⟨r, rest, rfl, hr⟩, hblank, hspaced, hdistinct, hreserved, hproductive⟩
    exact ⟨⟨⟨⟨⟨hblank, by simpa using hr⟩, hspaced⟩, hdistinct⟩, hreserved⟩, hproductive⟩
  · rintro ⟨⟨⟨⟨⟨hblank, hfirst⟩, hspaced⟩, hdistinct⟩, hreserved⟩, hproductive⟩
    refine ⟨?_, hblank, hspaced, hdistinct, hreserved, hproductive⟩
    obtain ⟨s, hs, -⟩ := hproductive
    obtain ⟨r, rest, rfl⟩ := List.exists_cons_of_ne_nil (List.ne_nil_of_mem hs)
    exact ⟨r, rest, rfl, hfirst r rfl⟩

theorem problemsOfRows_eq_nil_iff {rows : List Row} :
    problemsOfRows rows = [] ↔ Admissible rows := by
  rw [admissible_iff]
  constructor
  · intro h
    obtain ⟨hleft, hright, hrules⟩ := problemsOfRows_eq_nil h
    have hperm := defects_perm rows
    rw [hleft, hright] at hperm
    exact ⟨hperm.eq_nil, hrules⟩
  · rintro ⟨hdefects, hrules⟩
    have hperm := defects_perm rows
    rw [hdefects] at hperm
    rw [problemsOfRows, hperm.nil_eq.symm]
    simp [hrules]

/-- **Admissible rows describe a grammar**, and no others do. -/
theorem exists_ofRows_iff {rows : List Row} :
    (∃ g, ofRows rows = .ok g) ↔ Admissible rows := by
  rw [← problemsOfRows_eq_nil_iff]
  constructor
  · rintro ⟨g, hg⟩
    exact (ofRows_eq_ok hg).1
  · intro h
    exact ⟨_, by rw [ofRows, h]⟩

/-- **Rows are validated exactly.** A list of rows describes a grammar if it is admissible, and only
then. Otherwise there is no grammar, and the problems reported are the defects of the list, each as
often as it occurs: one for each row that needs a left-hand side, for each row with a blank in it,
for each row of a left-hand side that several rows have, and for each alternative that holds the end
marker. That there is no production is reported where nothing else is. -/
theorem ofRows_validates (rows : List Row) :
    ((∃ g, ofRows rows = .ok g) ↔ Admissible rows) ∧
      ∀ problems, ofRows rows = .error problems →
        problems.Perm (if defects rows = [] then [.noProductions] else defects rows) := by
  refine ⟨exists_ofRows_iff, fun problems h => ?_⟩
  have hperm := defects_perm rows
  unfold ofRows at h
  split at h
  · exact absurd h (by simp)
  next hproblems =>
    obtain rfl := Except.error.inj h
    unfold problemsOfRows at hproblems ⊢
    cases hfound : Row.allLeftProblems [] rows ++ rows.flatMap Row.rightProblems with
    | nil =>
      rw [hfound] at hperm hproblems
      rw [if_pos hperm.eq_nil]
      by_cases hrules : (rulesOfRows rows).isEmpty
      · simp [hrules]
      · exact absurd (by simp [hrules]) hproblems
    | cons p later =>
      rw [hfound] at hperm
      have hne : defects rows ≠ [] := fun hnil => by
        rw [hnil] at hperm
        exact absurd hperm.nil_eq (by simp)
      change (p :: later).Perm _
      rw [if_neg hne]
      exact hperm.symm

/-- Rows with a defect of every kind: the left-hand side `S` comes three times. -/
def faultyRows : List Row :=
  [⟨"1", "S", ["a $", "b"], false⟩, ⟨"2", " ", ["x"], false⟩, ⟨"3", "A B", ["c", " "], false⟩,
    ⟨"4", "S", [], true⟩, ⟨"5", "", ["", " "], false⟩, ⟨"6", " S ", ["c", "($)"], false⟩]

theorem ofRows_validates_faulty :
    ∃ problems, ofRows faultyRows = .error problems ∧
      (problems.map Problem.text).Perm
        ["row 2: LHS cannot be empty", "row 3: LHS cannot contain spaces",
          "row 1: Duplicate LHS: 'S'", "row 4: Duplicate LHS: 'S'", "row 6: Duplicate LHS: 'S'",
          "row 1, alternative 1: Symbol '$' is reserved for end of input",
          "row 6, alternative 2: Symbol '$' is reserved for end of input"] := by
  obtain ⟨problems, hproblems⟩ : ∃ problems, ofRows faultyRows = .error problems :=
    ⟨_, (by decide +kernel : ofRows faultyRows = .error
      [.emptyLeft "2", .spacedLeft "3", .duplicateLeft "S" "4", .duplicateLeft "S" "1",
        .duplicateLeft "S" "6", .reservedSymbol "1" 0, .reservedSymbol "6" 1])⟩
  have hdefects : (defects faultyRows).map Problem.text =
      ["row 2: LHS cannot be empty", "row 3: LHS cannot contain spaces",
        "row 1: Duplicate LHS: 'S'", "row 4: Duplicate LHS: 'S'", "row 6: Duplicate LHS: 'S'",
        "row 1, alternative 1: Symbol '$' is reserved for end of input",
        "row 6, alternative 2: Symbol '$' is reserved for end of input"] := by decide +kernel
  have hperm := (ofRows_validates faultyRows).2 problems hproblems
  rw [if_neg fun hnil => by rw [hnil] at hdefects; exact absurd hdefects (by simp)] at hperm
  exact ⟨problems, hproblems, hdefects ▸ hperm.map Problem.text⟩

end Grammar

end ShiftReduce

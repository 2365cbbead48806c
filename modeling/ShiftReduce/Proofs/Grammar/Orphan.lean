import ShiftReduce.Proofs.Grammar.Paragraph

/-!
# The lines before the first production line

A line that is no production line belongs to the production line above it. Those that stand before
the first production line are *orphans* (`ShiftReduce.Script.orphans`): each of them is a problem,
and nothing else is one (`ShiftReduce.Script.problems_read`). So a script has rows if it has no
orphans, and otherwise its orphans are reported (`ShiftReduce.Script.rows_eq_ok_iff`,
`ShiftReduce.Script.rows_eq_error_iff`).

The number of a line is in what is reported of it and nowhere else, so below a production line it
does not matter (`ShiftReduce.Script.Draft.readLines_congr`).
-/

namespace ShiftReduce.Script

/-- **The orphans of a script**: its lines before the first production line, with their numbers. -/
def orphans (script : String) : List (ℕ × String) :=
  (Comment.lines script).takeWhile fun e => ¬IsProduction e.2

variable {line : String} {numbered : List (ℕ × String)}

namespace Draft

variable {d : Draft} {number : ℕ}

/-- Reads numbered lines. -/
def readLines (d : Draft) (numbered : List (ℕ × String)) : Draft :=
  numbered.foldl (fun d e => d.read e.1 (.ofText e.2)) d

theorem readLines_nil (d : Draft) : d.readLines [] = d := rfl

theorem readLines_cons (d : Draft) (e : ℕ × String) (numbered : List (ℕ × String)) :
    d.readLines (e :: numbered) = (d.read e.1 (.ofText e.2)).readLines numbered := rfl

theorem readLines_append (d : Draft) (numbered more : List (ℕ × String)) :
    d.readLines (numbered ++ more) = (d.readLines numbered).readLines more :=
  List.foldl_append

@[simp] theorem problems_select (d : Draft) (A : Symbol) : (d.select A).problems = d.problems := by
  unfold select
  split <;> rfl

/-- **Below a production line** no line is a problem, and none is that comes behind it. -/
theorem read_of_isSome (h : d.current.isSome = true) (number : ℕ) (l : Line) :
    (d.read number l).problems = d.problems ∧ (d.read number l).current.isSome = true := by
  obtain ⟨A, hA⟩ := Option.isSome_iff_exists.mp h
  cases l with
  | production name alternatives => simp [read, update]
  | bar alternatives => simp [read, hA, update]
  | plain text => simp [read, hA, update]

/-- The number of a line does not matter there. -/
theorem read_number (h : d.current.isSome = true) (number other : ℕ) (l : Line) :
    d.read number l = d.read other l := by
  obtain ⟨A, hA⟩ := Option.isSome_iff_exists.mp h
  cases l <;> simp [read, hA]

theorem readLines_of_isSome (h : d.current.isSome = true) :
    (d.readLines numbered).problems = d.problems ∧
      (d.readLines numbered).current.isSome = true := by
  induction numbered generalizing d with
  | nil => exact ⟨rfl, h⟩
  | cons e numbered ih =>
    obtain ⟨hproblems, hcurrent⟩ := read_of_isSome h e.1 (.ofText e.2)
    rw [readLines_cons, (ih hcurrent).1, hproblems]
    exact ⟨rfl, (ih hcurrent).2⟩

theorem readLines_congr {other : List (ℕ × String)} (h : d.current.isSome = true)
    (hlines : other.map Prod.snd = numbered.map Prod.snd) :
    d.readLines other = d.readLines numbered := by
  induction numbered generalizing d other with
  | nil => rw [List.map_eq_nil_iff.mp hlines]
  | cons e numbered ih =>
    obtain ⟨e', other, rfl, he, hother⟩ := List.map_eq_cons_iff.mp hlines
    rw [readLines_cons, readLines_cons, he, read_number h e'.1 e.1]
    exact ih (read_of_isSome h e.1 (.ofText e.2)).2 hother

/-- Reading a production line. -/
theorem read_of_isProduction (h : IsProduction line) (d : Draft) (number : ℕ) :
    (d.read number (.ofText line)).problems = d.problems ∧
      (d.read number (.ofText line)).current.isSome = true := by
  obtain ⟨A, rest, hline⟩ := h
  rw [hline.ofText]
  simp [read, update]

/-- Reading an orphan. -/
theorem read_orphan (hcurrent : d.current = none) (h : ¬IsProduction line) (number : ℕ) :
    d.read number (.ofText line) = { d with problems := d.problems ++ [.orphanLine number] } := by
  rcases line_cases line with hproduction | ⟨rest, rfl⟩ | hplain
  · exact absurd hproduction h
  · rw [ofText_bar]
    simp [read, hcurrent]
  · rw [hplain]
    simp [read, hcurrent]

/-- **What is reported is the orphans**, each with its number. -/
theorem problems_readLines (h : d.current = none) :
    (d.readLines numbered).problems = d.problems ++
      (numbered.takeWhile fun e => ¬IsProduction e.2).map fun e => .orphanLine e.1 := by
  induction numbered generalizing d with
  | nil => simp [readLines]
  | cons e numbered ih =>
    rw [readLines_cons]
    by_cases he : IsProduction e.2
    -- from the first production line on, nothing is reported
    · obtain ⟨hproblems, hcurrent⟩ := read_of_isProduction he d e.1
      rw [(readLines_of_isSome hcurrent).1, hproblems, List.takeWhile_cons_of_neg (by simpa)]
      simp
    · have hcurrent : (d.read e.1 (.ofText e.2)).current = none := by rw [read_orphan h he, h]
      rw [ih hcurrent, read_orphan h he, List.takeWhile_cons_of_pos (by simpa)]
      simp

end Draft

theorem read_eq_readLines (script : String) :
    read script = Draft.readLines {} (Comment.lines script) := by
  rw [read, Draft.readLines]

theorem problems_read (script : String) :
    (read script).problems = (orphans script).map fun e => .orphanLine e.1 := by
  have hempty : ({} : Draft).current = none := rfl
  rw [read_eq_readLines, Draft.problems_readLines hempty, orphans]
  exact List.nil_append _

variable {script : String}

/-- **A script has rows if it has no orphans.** -/
theorem rows_eq_ok_iff {rs : List Row} :
    rows script = .ok rs ↔ orphans script = [] ∧ (read script).rows = rs := by
  have hproblems := problems_read script
  rw [rows]
  rcases horphans : orphans script with _ | ⟨e, later⟩
  · rw [horphans] at hproblems
    simp [hproblems]
  · rw [horphans] at hproblems
    simp [hproblems]

/-- **Otherwise its orphans are reported.** -/
theorem rows_eq_error_iff {problems : List Problem} :
    rows script = .error problems ↔
      orphans script ≠ [] ∧ problems = (orphans script).map fun e => .orphanLine e.1 := by
  have hproblems := problems_read script
  rw [rows]
  rcases horphans : orphans script with _ | ⟨e, later⟩
  · rw [horphans] at hproblems
    simp [hproblems]
  · rw [horphans] at hproblems
    simp [hproblems, eq_comm]

end ShiftReduce.Script

import ShiftReduce.Proofs.Grammar.Line
import ShiftReduce.Proofs.Order.FirstOccurrences

/-!
# What a regular script denotes

The lines of a script that matter are those that remain when comments, blanks at the ends and blank
lines are gone (`ShiftReduce.Script.cleaned`). They are *regular* if each of them is a production
line or begins with a bar and a production line comes first (`ShiftReduce.Script.AreRegular`). Then
they fall into *paragraphs*, each of which is a production line with the bar lines that follow it
(`ShiftReduce.Script.Paragraph`, `ShiftReduce.Script.Written`).

The paragraphs say what the rows are (`ShiftReduce.Script.rowsOfParagraphs`,
`ShiftReduce.Script.rows_eq_of_written`): one for each left-hand side, in the order in which these
first occur, with the alternatives of all of its paragraphs. So it does not matter over how many
paragraphs the alternatives of a left-hand side are spread
(`ShiftReduce.Script.rowsOfParagraphs_spread`).
-/

namespace ShiftReduce.Script

/-! ### Adding alternatives to a row -/

/-- The row with more alternatives, given by their texts. -/
def enlarge (row : Row) (texts : List String) : Row :=
  { row with
    right := row.right ++ texts.filter fun text => text ∉ emptySpellings ∧ text ≠ ""
    hasEpsilon := row.hasEpsilon || texts.any (· ∈ emptySpellings) }

variable {A : Symbol} {line rest : String} {lines : List String}

theorem enlarge_nil (row : Row) : enlarge row [] = row := by
  simp [enlarge]

theorem enlarge_enlarge (row : Row) (texts more : List String) :
    enlarge (enlarge row texts) more = enlarge row (texts ++ more) := by
  simp [enlarge, List.filter_append, List.any_append, Bool.or_assoc]

/-- **Adding alternatives one by one adds them all.** -/
theorem addAlternatives_eq_enlarge (row : Row) (text : String) :
    addAlternatives row text = enlarge row (alternativesIn text) := by
  rw [addAlternatives, ← alternativesIn]
  induction alternativesIn text generalizing row with
  | nil => exact (enlarge_nil row).symm
  | cons alternative texts ih =>
    have hcons : enlarge row (alternative :: texts) = enlarge (enlarge row [alternative]) texts :=
      (enlarge_enlarge row [alternative] texts).symm
    rw [List.foldl_cons, ih, hcons]
    congr 1
    by_cases hspelled : alternative ∈ emptySpellings
    · simp [enlarge, hspelled]
    · by_cases hempty : alternative = ""
      · subst hempty
        simp [enlarge, hspelled]
      · simp [enlarge, hspelled, hempty]

/-! ### Reading regular lines -/

/-- **Regular lines**: each of them is regular, and a production line comes first. -/
structure AreRegular (lines : List String) : Prop where
  /-- Each line is a production line or begins with a bar. -/
  cases : ∀ line ∈ lines, IsRegularLine line
  /-- The first line is a production line. -/
  first : ∀ line ∈ lines.head?, ∃ A rest, IsProductionLine line A rest

namespace Draft

variable {d : Draft}

/-- Changing a row twice, where the left-hand side is left, is one change. -/
theorem update_update {f g : Row → Row} (hf : ∀ r, (f r).left = r.left) (d : Draft) (A : Symbol) :
    (d.update A f).update A g = d.update A fun r => g (f r) := by
  have hrow : ∀ r : Row, (if (if r.left = A then f r else r).left = A then
      g (if r.left = A then f r else r) else if r.left = A then f r else r) =
      if r.left = A then g (f r) else r := by
    intro r
    by_cases hleft : r.left = A
    · simp only [if_pos hleft, if_pos ((hf r).trans hleft)]
    · simp only [if_neg hleft]
  simp only [update, List.map_map]
  exact congrArg (Draft.mk · d.current d.problems) (List.map_congr_left fun r _ => hrow r)

/-- Adds alternatives to the row of a name. -/
def enlarge (d : Draft) (A : Symbol) (texts : List String) : Draft :=
  d.update A (Script.enlarge · texts)

@[simp] theorem current_enlarge (d : Draft) (A : Symbol) (texts : List String) :
    (d.enlarge A texts).current = d.current := rfl

@[simp] theorem current_select (d : Draft) (A : Symbol) : (d.select A).current = some A := by
  unfold select
  split <;> rfl

theorem enlarge_nil (d : Draft) (A : Symbol) : d.enlarge A [] = d := by
  simp [enlarge, update, Script.enlarge_nil]

theorem enlarge_enlarge (d : Draft) (A : Symbol) (texts more : List String) :
    (d.enlarge A texts).enlarge A more = d.enlarge A (texts ++ more) := by
  rw [enlarge, enlarge, update_update (f := (Script.enlarge · texts)) fun _ => rfl]
  simp only [Script.enlarge_enlarge]
  rfl

/-- **Reading a production line.** -/
theorem read_production (h : IsProductionLine line A rest) (d : Draft) (number : ℕ) :
    d.read number (.ofText line) = (d.select A).enlarge A (alternativesIn rest) := by
  rw [h.ofText]
  simp only [read, addAlternatives_eq_enlarge, alternativesIn_trimStart]
  rfl

/-- **Reading a bar line** below a production line. -/
theorem read_bar (h : d.current = some A) (number : ℕ) :
    d.read number (.ofText ("|" ++ rest)) = d.enlarge A (alternativesIn rest) := by
  rw [ofText_bar]
  simp only [read, h, addAlternatives_eq_enlarge]
  rfl

/-- Reads lines, whatever their numbers are. -/
def readAll (d : Draft) (lines : List String) : Draft :=
  lines.foldl (fun d line => d.read 0 (.ofText line)) d

theorem readAll_cons (d : Draft) (line : String) (lines : List String) :
    d.readAll (line :: lines) = (d.read 0 (.ofText line)).readAll lines := rfl

theorem readAll_append (d : Draft) (lines more : List String) :
    d.readAll (lines ++ more) = (d.readAll lines).readAll more :=
  List.foldl_append

/-- A line that can be read: a production line, or a bar line below a production line. -/
def CanRead (d : Draft) (line : String) : Prop :=
  (∃ A rest, IsProductionLine line A rest) ∨
    d.current.isSome = true ∧ ∃ rest, line = "|" ++ rest

/-- **One line**: its number does not matter, and further bar lines may follow. -/
theorem CanRead.read_eq (h : d.CanRead line) (number : ℕ) :
    d.read number (.ofText line) = d.read 0 (.ofText line) ∧
      (d.read 0 (.ofText line)).current.isSome = true := by
  rcases h with ⟨A, rest, hline⟩ | ⟨hcurrent, rest, rfl⟩
  · rw [read_production hline, read_production hline]
    simp
  · obtain ⟨A, hA⟩ := Option.isSome_iff_exists.mp hcurrent
    rw [read_bar hA, read_bar hA]
    simp [hA]

/-- **All lines**: their numbers do not matter. -/
theorem foldl_read_eq_readAll {numbered : List (ℕ × String)}
    (hfirst : ∀ e ∈ numbered.head?, d.CanRead e.2)
    (hcases : ∀ e ∈ numbered, IsRegularLine e.2) :
    numbered.foldl (fun d e => d.read e.1 (.ofText e.2)) d =
      d.readAll (numbered.map Prod.snd) := by
  induction numbered generalizing d with
  | nil => rfl
  | cons e numbered ih =>
    obtain ⟨hread, hcurrent⟩ := (hfirst e rfl).read_eq e.1
    obtain ⟨-, hlater⟩ := List.forall_mem_cons.mp hcases
    rw [List.foldl_cons, hread, List.map_cons, readAll_cons]
    exact ih (fun e' he' => (hlater e' (List.mem_of_mem_head? he')).imp_right (.intro hcurrent))
      hlater

theorem isSome_current_readAll (hcurrent : d.current.isSome = true)
    (hcases : ∀ line ∈ lines, IsRegularLine line) :
    (d.readAll lines).current.isSome = true := by
  induction lines generalizing d with
  | nil => exact hcurrent
  | cons line lines ih =>
    obtain ⟨hline, hlater⟩ := List.forall_mem_cons.mp hcases
    have hread : d.CanRead line := hline.imp_right (.intro hcurrent)
    exact ih (hread.read_eq 0).2 hlater

end Draft

/-- **The lines of a script** without comments, without blanks at their ends, and without those that
are blank. -/
def cleaned (script : String) : List String :=
  (Comment.lines script).map Prod.snd

variable {script script' : String}

/-- **A regular script is read line by line.** -/
theorem read_eq_readAll (h : AreRegular (cleaned script)) :
    read script = Draft.readAll {} (cleaned script) := by
  refine Draft.foldl_read_eq_readAll (fun e he => Or.inl ?_) fun e he => ?_
  · refine h.first e.2 ?_
    rw [cleaned, List.head?_map, Option.mem_def.mp he]
    rfl
  · exact h.cases e.2 (List.mem_map_of_mem he)

theorem AreRegular.isSome_current (h : AreRegular lines) (hne : lines ≠ []) :
    (Draft.readAll {} lines).current.isSome = true := by
  obtain ⟨line, later, rfl⟩ := List.exists_cons_of_ne_nil hne
  have hread : Draft.CanRead {} line := Or.inl (h.first line rfl)
  rw [Draft.readAll_cons]
  exact Draft.isSome_current_readAll (hread.read_eq 0).2 (List.forall_mem_cons.mp h.cases).2

/-! ### Paragraphs -/

/-- **A paragraph**: a production line and the bar lines that follow it. -/
structure Paragraph where
  /-- The name of the production line. -/
  name : Symbol
  /-- What stands behind its arrow. -/
  first : String
  /-- What stands behind the bars of the bar lines. -/
  more : List String
deriving DecidableEq

/-- The alternatives of a paragraph. -/
def Paragraph.alternatives (p : Paragraph) : List String :=
  (p.first :: p.more).flatMap alternativesIn

/-- **The lines of paragraphs.** -/
inductive Written : List Paragraph → List String → Prop
  /-- No paragraphs have no lines. -/
  | nil : Written [] []
  /-- The lines of a paragraph come before those of the others. -/
  | cons {p : Paragraph} {ps : List Paragraph} {line : String} {lines : List String}
    (hline : IsProductionLine line p.name p.first) (hlines : Written ps lines) :
    Written (p :: ps) (line :: (p.more.map ("|" ++ ·) ++ lines))

/-- **Regular lines fall into paragraphs.** -/
theorem exists_written (h : AreRegular lines) : ∃ ps, Written ps lines := by
  -- what stands below a line begins with its bar lines, and a paragraph comes next
  have hbelow : ∀ below : List String,
      (∀ line ∈ below, IsRegularLine line) →
      ∃ (bars : List String) (ps : List Paragraph) (later : List String),
        below = bars.map ("|" ++ ·) ++ later ∧ Written ps later := by
    intro below hcases
    induction below with
    | nil => exact ⟨[], [], [], rfl, .nil⟩
    | cons line below ih =>
      obtain ⟨hline, hbelow⟩ := List.forall_mem_cons.mp hcases
      obtain ⟨bars, ps, later, rfl, hwritten⟩ := ih hbelow
      rcases hline with ⟨A, rest, hline⟩ | ⟨rest, rfl⟩
      · exact ⟨[], ⟨A, rest, bars⟩ :: ps, _, rfl, .cons hline hwritten⟩
      · exact ⟨rest :: bars, ps, later, rfl, hwritten⟩
  rcases lines with _ | ⟨line, below⟩
  · exact ⟨[], .nil⟩
  · obtain ⟨A, rest, hline⟩ := h.first line rfl
    obtain ⟨bars, ps, later, rfl, hwritten⟩ := hbelow below (List.forall_mem_cons.mp h.cases).2
    exact ⟨⟨A, rest, bars⟩ :: ps, .cons hline hwritten⟩

theorem Written.areRegular {ps : List Paragraph} (h : Written ps lines) : AreRegular lines := by
  induction h with
  | nil => exact ⟨by simp, by simp⟩
  | @cons p ps line lines hline _ ih =>
    refine ⟨fun l hl => ?_, fun l hl => ?_⟩
    · rcases List.mem_cons.mp hl with rfl | hl
      · exact Or.inl ⟨_, _, hline⟩
      · rcases List.mem_append.mp hl with hl | hl
        · obtain ⟨rest, -, rfl⟩ := List.mem_map.mp hl
          exact Or.inr ⟨rest, rfl⟩
        · exact ih.cases l hl
    · obtain rfl : line = l := by simpa using hl
      exact ⟨_, _, hline⟩

/-- The alternatives of a left-hand side, paragraph by paragraph. -/
def alternativesOf (A : Symbol) (ps : List Paragraph) : List String :=
  (ps.filter (·.name = A)).flatMap Paragraph.alternatives

/-- The row of a left-hand side with the given alternatives. Those that spell the empty word tick
the row, and empty ones are left out. -/
def rowOfAlternatives (id : String) (A : Symbol) (texts : List String) : Row where
  id
  left := A
  right := texts.filter fun text => text ∉ emptySpellings ∧ text ≠ ""
  hasEpsilon := texts.any (· ∈ emptySpellings)

/-- **The rows that paragraphs denote**: one for each left-hand side, in the order in which these
first occur, numbered from one. -/
def rowsOfParagraphs (ps : List Paragraph) : List Row :=
  ((ps.map Paragraph.name).eraseDups.zipIdx 1).map fun (A, k) =>
    rowOfAlternatives ("row-" ++ toString k) A (alternativesOf A ps)

theorem enlarge_rowOfAlternatives (id : String) (A : Symbol) (texts more : List String) :
    enlarge (rowOfAlternatives id A texts) more = rowOfAlternatives id A (texts ++ more) := by
  simp [enlarge, rowOfAlternatives, List.filter_append, List.any_append]

namespace Draft

variable {d : Draft}

/-- Reads a paragraph. -/
def readParagraph (d : Draft) (p : Paragraph) : Draft :=
  (d.select p.name).enlarge p.name p.alternatives

theorem readAll_bars (h : d.current = some A) (bars : List String) :
    d.readAll (bars.map ("|" ++ ·)) = d.enlarge A (bars.flatMap alternativesIn) := by
  induction bars generalizing d with
  | nil => exact (enlarge_nil d A).symm
  | cons rest bars ih =>
    rw [List.map_cons, readAll_cons, read_bar h, ih (by simpa using h), enlarge_enlarge,
      List.flatMap_cons]

/-- **The lines of paragraphs are read paragraph by paragraph.** -/
theorem readAll_of_written {ps : List Paragraph} (h : Written ps lines) (d : Draft) :
    d.readAll lines = ps.foldl readParagraph d := by
  induction h generalizing d with
  | nil => rfl
  | @cons p ps line lines hline _ ih =>
    have hcurrent : ((d.select p.name).enlarge p.name (alternativesIn p.first)).current =
        some p.name := by simp
    rw [readAll_cons, read_production hline, readAll_append, readAll_bars hcurrent, ih,
      enlarge_enlarge, ← List.flatMap_cons]
    rfl

end Draft

/-! ### The rows of paragraphs -/

variable {ps : List Paragraph} {p : Paragraph}

theorem map_left_rowsOfParagraphs (ps : List Paragraph) :
    (rowsOfParagraphs ps).map Row.left = (ps.map Paragraph.name).eraseDups := by
  rw [rowsOfParagraphs, List.map_map]
  exact List.zipIdx_map_fst ..

theorem alternativesOf_append (A : Symbol) (ps qs : List Paragraph) :
    alternativesOf A (ps ++ qs) = alternativesOf A ps ++ alternativesOf A qs := by
  simp [alternativesOf, List.filter_append]

theorem alternativesOf_singleton (A : Symbol) (p : Paragraph) :
    alternativesOf A [p] = if p.name = A then p.alternatives else [] := by
  by_cases h : p.name = A <;> simp [alternativesOf, h]

theorem alternativesOf_eq_nil (h : A ∉ ps.map Paragraph.name) : alternativesOf A ps = [] := by
  have hnone : ps.filter (·.name = A) = [] :=
    List.filter_eq_nil_iff.mpr fun p hp hname =>
      h (List.mem_map.mpr ⟨p, hp, of_decide_eq_true hname⟩)
  rw [alternativesOf, hnone, List.flatMap_nil]

/-- A paragraph whose left-hand side has a row adds its alternatives to this row. -/
theorem rowsOfParagraphs_append_of_mem (hmem : p.name ∈ ps.map Paragraph.name) :
    rowsOfParagraphs (ps ++ [p]) = (rowsOfParagraphs ps).map fun row =>
      if row.left = p.name then enlarge row p.alternatives else row := by
  have hnames : ((ps ++ [p]).map Paragraph.name).eraseDups = (ps.map Paragraph.name).eraseDups := by
    rw [List.map_append, List.map_singleton, eraseDups_append_singleton, if_pos hmem]
  rw [rowsOfParagraphs, hnames, rowsOfParagraphs, List.map_map]
  refine List.map_congr_left ?_
  rintro ⟨A, k⟩ -
  rw [Function.comp_apply]
  change rowOfAlternatives _ A (alternativesOf A (ps ++ [p])) = if A = p.name then _ else _
  rw [alternativesOf_append, alternativesOf_singleton]
  by_cases hname : p.name = A
  · rw [if_pos hname.symm, if_pos hname, enlarge_rowOfAlternatives]
  · rw [if_neg (Ne.symm hname), if_neg hname, List.append_nil]

/-- A paragraph whose left-hand side is new adds a row. -/
theorem rowsOfParagraphs_append_of_notMem (hmem : p.name ∉ ps.map Paragraph.name) :
    rowsOfParagraphs (ps ++ [p]) = rowsOfParagraphs ps ++
      [rowOfAlternatives ("row-" ++ toString ((rowsOfParagraphs ps).length + 1)) p.name
        p.alternatives] := by
  have hnames : ((ps ++ [p]).map Paragraph.name).eraseDups =
      (ps.map Paragraph.name).eraseDups ++ [p.name] := by
    rw [List.map_append, List.map_singleton, eraseDups_append_singleton, if_neg hmem]
  have hlength : (rowsOfParagraphs ps).length = (ps.map Paragraph.name).eraseDups.length := by
    rw [← map_left_rowsOfParagraphs, List.length_map]
  have hnew : alternativesOf p.name (ps ++ [p]) = p.alternatives := by
    rw [alternativesOf_append, alternativesOf_singleton, alternativesOf_eq_nil hmem, if_pos rfl,
      List.nil_append]
  rw [hlength, Nat.add_comm, rowsOfParagraphs, hnames, List.zipIdx_append, List.map_append]
  refine congrArg₂ (· ++ ·) (List.map_congr_left ?_) ?_
  · rintro ⟨A, k⟩ hA
    have hne : p.name ≠ A := by
      rintro rfl
      exact hmem (List.mem_eraseDups.mp (List.fst_mem_of_mem_zipIdx hA))
    change rowOfAlternatives _ A (alternativesOf A (ps ++ [p])) = _
    rw [alternativesOf_append, alternativesOf_singleton, if_neg hne, List.append_nil]
  · rw [List.zipIdx_singleton, List.map_singleton]
    change [rowOfAlternatives _ p.name (alternativesOf p.name (ps ++ [p]))] = _
    rw [hnew]

namespace Draft

/-- A change to the rows of a name changes the last row only, if no other has that name. -/
theorem map_update_append {l : List Row} {r : Row} {f : Row → Row}
    (hold : ∀ s ∈ l, s.left ≠ r.left) :
    (l ++ [r]).map (fun s => if s.left = r.left then f s else s) = l ++ [f r] := by
  have hmap : l.map (fun s => if s.left = r.left then f s else s) = l :=
    (List.map_congr_left fun s hs => if_neg (hold s hs)).trans (List.map_id' l)
  rw [List.map_append, hmap, List.map_singleton, if_pos rfl]

/-- **One more paragraph** adds its alternatives to the row of its left-hand side, which comes last
if it is new. -/
theorem readParagraph_rowsOfParagraphs (ps : List Paragraph) (current : Option Symbol)
    (problems : List Problem) (p : Paragraph) :
    readParagraph ⟨rowsOfParagraphs ps, current, problems⟩ p =
      ⟨rowsOfParagraphs (ps ++ [p]), some p.name, problems⟩ := by
  have hany : (rowsOfParagraphs ps).any (·.left = p.name) = true ↔
      p.name ∈ ps.map Paragraph.name := by
    rw [← List.mem_eraseDups, ← map_left_rowsOfParagraphs, List.mem_map]
    simp
  rw [readParagraph, select, enlarge, update]
  by_cases hmem : p.name ∈ ps.map Paragraph.name
  · rw [if_pos (hany.mpr hmem), rowsOfParagraphs_append_of_mem hmem]
  · have hold : ∀ row ∈ rowsOfParagraphs ps, row.left ≠ p.name := by
      simpa using mt hany.mp hmem
    rw [if_neg (mt hany.mp hmem), rowsOfParagraphs_append_of_notMem hmem]
    set id := "row-" ++ toString ((rowsOfParagraphs ps).length + 1) with hid
    exact congrArg (Draft.mk · (some p.name) problems)
      (map_update_append (r := ⟨id, p.name, [], false⟩) hold)

/-- **Paragraphs leave the rows that they denote.** -/
theorem exists_foldl_readParagraph (ps : List Paragraph) :
    ∃ current, ps.foldl readParagraph {} = ⟨rowsOfParagraphs ps, current, []⟩ := by
  induction ps using List.reverseRecOn with
  | nil => exact ⟨none, rfl⟩
  | append_singleton ps p ih =>
    obtain ⟨current, hread⟩ := ih
    exact ⟨some p.name, by
      rw [List.foldl_append, hread, List.foldl_cons, List.foldl_nil,
        readParagraph_rowsOfParagraphs]⟩

end Draft

/-- **The rows of a regular script are those that its paragraphs denote.** -/
theorem rows_eq_of_written (h : Written ps (cleaned script)) :
    rows script = .ok (rowsOfParagraphs ps) := by
  obtain ⟨current, hread⟩ := Draft.exists_foldl_readParagraph ps
  rw [rows, read_eq_readAll h.areRegular, Draft.readAll_of_written h, hread]

/-- The alternatives of a left-hand side do not depend on the paragraphs of another one. -/
theorem alternativesOf_congr {B : Symbol} {qs : List Paragraph} (hne : A ≠ B)
    (h : qs.filter (·.name ≠ B) = ps.filter (·.name ≠ B)) :
    alternativesOf A qs = alternativesOf A ps := by
  have hother : ∀ l : List Paragraph,
      l.filter (·.name = A) = (l.filter (·.name ≠ B)).filter (·.name = A) := by
    intro l
    rw [List.filter_filter]
    refine List.filter_congr fun q _ => ?_
    by_cases hq : q.name = A
    · simp [hq, hne]
    · simp [hq]
  rw [alternativesOf, hother qs, h, ← hother ps, alternativesOf]

/-- **Alternatives may be spread over paragraphs.** Behind the first paragraph of a left-hand side,
it matters in which order its alternatives come, but not in which paragraphs. -/
theorem rowsOfParagraphs_spread {us ms ms' : List Paragraph} {p p' : Paragraph}
    (hname : p'.name = p.name)
    (hothers : ms'.filter (·.name ≠ p.name) = ms.filter (·.name ≠ p.name))
    (hsame : alternativesOf p.name (p' :: ms') = alternativesOf p.name (p :: ms)) :
    rowsOfParagraphs (us ++ p' :: ms') = rowsOfParagraphs (us ++ p :: ms) := by
  have hmap : ∀ l : List Paragraph, (l.map Paragraph.name).filter (· ≠ p.name) =
      (l.filter (·.name ≠ p.name)).map Paragraph.name := fun l => List.filter_map
  have hnames : ((us ++ p' :: ms').map Paragraph.name).eraseDups =
      ((us ++ p :: ms).map Paragraph.name).eraseDups := by
    rw [List.map_append, List.map_append, List.map_cons, List.map_cons, hname]
    exact eraseDups_append_cons_congr _ (by rw [hmap, hmap, hothers])
  have hall : (p' :: ms').filter (·.name ≠ p.name) = (p :: ms).filter (·.name ≠ p.name) := by
    rw [List.filter_cons_of_neg (by simp [hname]), List.filter_cons_of_neg (by simp), hothers]
  have halternatives : ∀ A, alternativesOf A (us ++ p' :: ms') =
      alternativesOf A (us ++ p :: ms) := by
    intro A
    rw [alternativesOf_append, alternativesOf_append]
    by_cases hA : A = p.name
    · rw [hA, hsame]
    · rw [alternativesOf_congr hA hall]
  rw [rowsOfParagraphs, rowsOfParagraphs, hnames]
  simp only [halternatives]

end ShiftReduce.Script

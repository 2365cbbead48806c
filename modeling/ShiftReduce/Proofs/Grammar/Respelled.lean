import ShiftReduce.Proofs.Grammar.Comment
import ShiftReduce.Proofs.Grammar.Paragraph

/-!
# Other ways to write a script

Lines that say the same as one line may take its place wherever it stands in a regular script
(`ShiftReduce.Script.Restates`, `ShiftReduce.Script.rows_eq_of_restates`). There are two uses of
this: a line can be broken before any of its bars (`ShiftReduce.Script.restates_break`), and a
production line may have any arrow (`ShiftReduce.Script.IsProductionLine.restates`).

Together with the rows that paragraphs denote, this is what a regular script says
(`ShiftReduce.Script.readsByParagraphs_of_areRegular`).
-/

namespace ShiftReduce.Script

/-! ### Other lines that say the same -/

variable {line rest script script' : String} {A : Symbol} {part before after : List String}

/-- **Lines that say the same as one line**, wherever this line can be read. -/
structure Restates (part : List String) (line : String) : Prop where
  /-- There are such lines. -/
  ne_nil : part ≠ []
  /-- They are regular. -/
  cases : ∀ l ∈ part, IsRegularLine l
  /-- They begin with a production line if the line is one. -/
  first : (∃ A rest, IsProductionLine line A rest) →
    ∀ l ∈ part.head?, ∃ A rest, IsProductionLine l A rest
  /-- They leave the same draft. -/
  same : ∀ d : Draft, d.CanRead line → d.readAll part = d.read 0 (.ofText line)

theorem AreRegular.restate (h : AreRegular (before ++ line :: after)) (hpart : Restates part line) :
    AreRegular (before ++ (part ++ after)) := by
  obtain ⟨l, part', hl⟩ := List.exists_cons_of_ne_nil hpart.ne_nil
  refine ⟨fun l' hl' => ?_, fun l' hl' => ?_⟩
  · rw [List.mem_append, List.mem_append] at hl'
    rcases hl' with hl' | hl' | hl'
    · exact h.cases l' (by simp [hl'])
    · exact hpart.cases l' hl'
    · exact h.cases l' (by simp [hl'])
  · rcases before with _ | ⟨l₀, before⟩
    · rw [List.nil_append, hl, List.cons_append, List.head?_cons] at hl'
      exact hpart.first (h.first line rfl) l' (by rw [hl]; exact hl')
    · exact h.first l' hl'

/-- **Lines that say the same give the same rows.** -/
theorem rows_eq_of_restates (h : AreRegular (cleaned script)) (hpart : Restates part line)
    (hlines : cleaned script = before ++ line :: after)
    (hlines' : cleaned script' = before ++ (part ++ after)) : rows script' = rows script := by
  have hall : AreRegular (before ++ line :: after) := hlines ▸ h
  have h' : AreRegular (cleaned script') := hlines' ▸ hall.restate hpart
  have hread : (Draft.readAll {} before).CanRead line := by
    rcases before with _ | ⟨l, before⟩
    · exact Or.inl (hall.first line rfl)
    · have hregular : AreRegular (l :: before) :=
        ⟨fun l' hl' => hall.cases l' (List.mem_append_left _ hl'), hall.first⟩
      exact (hall.cases line (by simp)).imp_right
        (.intro (hregular.isSome_current (List.cons_ne_nil _ _)))
  have hsame : read script' = read script := by
    rw [read_eq_readAll h, read_eq_readAll h', hlines, hlines', Draft.readAll_append,
      Draft.readAll_append, Draft.readAll_append, Draft.readAll_cons, hpart.same _ hread]
  rw [rows, rows, hsame]

/-- A production line may have any arrow. -/
theorem IsProductionLine.restates {line' : String} (h : IsProductionLine line A rest)
    (h' : IsProductionLine line' A rest) : Restates [line'] line where
  ne_nil := List.cons_ne_nil _ _
  cases l hl := by
    obtain rfl := List.mem_singleton.mp hl
    exact Or.inl ⟨A, rest, h'⟩
  first _ := by simpa using ⟨A, rest, h'⟩
  same d _ := by
    rw [Draft.readAll_cons, Draft.read_production h, Draft.read_production h']
    rfl

/-- **A line may be broken before any of its bars** but one that it begins with. -/
theorem restates_break {front gap text : List Char} (hfront : front ≠ [])
    (hgap : ∀ c ∈ gap, Text.isBlank c = true)
    (hcases : IsRegularLine (String.ofList (front ++ (gap ++ '|' :: text)))) :
    Restates [String.ofList front, "|" ++ String.ofList text]
      (String.ofList (front ++ (gap ++ '|' :: text))) := by
  -- a bar line is broken behind the bar that it begins with
  have hbar : ∀ rest, String.ofList (front ++ (gap ++ '|' :: text)) = "|" ++ rest →
      ∃ before, String.ofList front = "|" ++ String.ofList before ∧
        alternativesIn rest =
          alternativesIn (String.ofList before) ++ alternativesIn (String.ofList text) := by
    intro rest hrest
    obtain ⟨c, before, rfl⟩ := List.exists_cons_of_ne_nil hfront
    have hlist : c :: (before ++ (gap ++ '|' :: text)) = '|' :: rest.toList := by
      simpa using congrArg String.toList hrest
    obtain ⟨rfl, htail⟩ := List.cons.inj hlist
    refine ⟨before, String.toList_inj.mp (by simp), ?_⟩
    rw [← alternativesIn_break before text hgap, htail]
    exact congrArg alternativesIn String.ofList_toList.symm
  refine ⟨List.cons_ne_nil _ _, fun l hl => ?_, ?_, fun d hread => ?_⟩
  · rcases List.mem_cons.mp hl with rfl | hl
    · rcases hcases with ⟨A, rest, hline⟩ | ⟨rest, hline⟩
      · obtain ⟨before, hbefore, -⟩ := hline.exists_break hgap
        exact Or.inl ⟨A, before, hbefore⟩
      · obtain ⟨before, hbefore, -⟩ := hbar rest hline
        exact Or.inr ⟨_, hbefore⟩
    · exact Or.inr ⟨_, List.mem_singleton.mp hl⟩
  · rintro ⟨A, rest, hline⟩ l hl
    obtain ⟨before, hbefore, -⟩ := hline.exists_break hgap
    obtain rfl : String.ofList front = l := by simpa using hl
    exact ⟨A, before, hbefore⟩
  · rw [Draft.readAll_cons, Draft.readAll_cons]
    change (d.read 0 _).read 0 _ = _
    rcases hread with ⟨A, rest, hline⟩ | ⟨hcurrent, rest, hline⟩
    · obtain ⟨before, hbefore, hsame⟩ := hline.exists_break hgap
      rw [Draft.read_production hline, Draft.read_production hbefore,
        Draft.read_bar (A := A) (by simp), Draft.enlarge_enlarge, hsame]
    · obtain ⟨A, hA⟩ := Option.isSome_iff_exists.mp hcurrent
      obtain ⟨before, hbefore, hsame⟩ := hbar rest hline
      rw [hline, hbefore, Draft.read_bar hA, Draft.read_bar hA, Draft.read_bar (A := A) (by simpa),
        Draft.enlarge_enlarge, hsame]

/-- The lines of a script into which a line break is put before a bar. -/
theorem exists_cleaned_break {x y : List Char} (h : Comment.strip script.toList = x ++ '|' :: y)
    (h' : Comment.strip script'.toList = x ++ '\n' :: '|' :: y) :
    ∃ before front behind after,
      cleaned script = before ++ (Comment.kept (front ++ '|' :: behind) ++ after) ∧
      cleaned script' =
        before ++ (Comment.kept front ++ (Comment.kept ('|' :: behind) ++ after)) := by
  obtain ⟨u, front, hx, happend⟩ := Text.exists_splitOn_append '\n' x
  obtain ⟨behind, v, hy⟩ := List.exists_cons_of_ne_nil (List.splitOn_ne_nil '\n' y)
  have hbar : ('|' :: y).splitOn '\n' = ('|' :: behind) :: v := by
    have hcons : ('|' :: y).splitOn '\n' = (y.splitOn '\n').modifyHead ('|' :: ·) :=
      (List.splitOnP_cons_eq_if_modifyHead '|' y).trans (if_neg (by decide))
    rw [hcons, hy, List.modifyHead_cons]
  refine ⟨u.flatMap Comment.kept, front, behind, v.flatMap Comment.kept, ?_, ?_⟩
  · rw [cleaned, Comment.map_snd_lines, h, happend, hbar, List.modifyHead_cons, List.flatMap_append,
      List.flatMap_cons]
  · rw [cleaned, Comment.map_snd_lines, h', List.splitOn_append_cons_self, hx, hbar]
    simp only [List.flatMap_append, List.flatMap_cons, List.flatMap_nil, List.append_nil,
      List.append_assoc]

/-- **A line break before a bar does not change the rows.** -/
theorem rows_break {x y : List Char} (hregular : AreRegular (cleaned script))
    (h : Comment.strip script.toList = x ++ '|' :: y)
    (h' : Comment.strip script'.toList = x ++ '\n' :: '|' :: y) : rows script' = rows script := by
  obtain ⟨before, front, behind, after, hlines, hlines'⟩ := exists_cleaned_break h h'
  by_cases hfront : Text.trim front = []
  · -- nothing but blanks stands before the bar
    have hsame : Comment.kept (front ++ '|' :: behind) = Comment.kept ('|' :: behind) := by
      rw [Comment.kept, Text.trim_append_left _
        (List.all_eq_true.mp (Text.trim_eq_nil_iff.mp hfront)), ← Comment.kept]
    have hcleaned : cleaned script' = cleaned script := by
      rw [hlines, hlines', hsame, Comment.kept, if_pos hfront, List.nil_append]
    obtain ⟨ps, hwritten⟩ := exists_written hregular
    have hwritten' : Written ps (cleaned script') := by rwa [hcleaned]
    rw [rows_eq_of_written hwritten, rows_eq_of_written hwritten']
  · obtain ⟨gap, text, hgap, hbar, hwhole⟩ := exists_trim_bar front behind hfront
    rw [Comment.kept, hwhole, if_neg (by simp), List.singleton_append] at hlines
    rw [Comment.kept, if_neg hfront, Comment.kept, hbar, if_neg (by simp)] at hlines'
    refine rows_eq_of_restates hregular (restates_break hfront hgap ?_) hlines ?_
    · exact hregular.cases _ (by rw [hlines]; simp)
    · rw [hlines']
      simp

/-! ### What a regular script denotes -/

/-- **A script that is read by paragraphs.** -/
structure ReadsByParagraphs (script : String) : Prop where
  /-- Its lines fall into paragraphs. -/
  written : ∃ ps, Written ps (cleaned script)
  /-- The rows are those that the paragraphs denote. -/
  rows_eq : ∀ ps, Written ps (cleaned script) → rows script = .ok (rowsOfParagraphs ps)
  /-- A line break before a bar makes no difference. -/
  broken : ∀ script' x y, Comment.strip script.toList = x ++ '|' :: y →
    Comment.strip script'.toList = x ++ '\n' :: '|' :: y → rows script' = rows script
  /-- Neither does it matter over which paragraphs the alternatives of a left-hand side are spread
  behind its first paragraph. -/
  spread : ∀ script' us p ms p' ms', Written (us ++ p :: ms) (cleaned script) →
    Written (us ++ p' :: ms') (cleaned script') → p'.name = p.name →
    ms'.filter (·.name ≠ p.name) = ms.filter (·.name ≠ p.name) →
    alternativesOf p.name (p' :: ms') = alternativesOf p.name (p :: ms) →
    rows script' = rows script
  /-- Nor does the arrow of a production line. -/
  exchanged : ∀ script' before line line' after A rest, cleaned script = before ++ line :: after →
    cleaned script' = before ++ line' :: after → IsProductionLine line A rest →
    IsProductionLine line' A rest → rows script' = rows script

/-- **A regular script is read by paragraphs.** -/
theorem readsByParagraphs_of_areRegular {script : String} (h : AreRegular (cleaned script)) :
    ReadsByParagraphs script where
  written := exists_written h
  rows_eq _ := rows_eq_of_written
  broken _ _ _ := rows_break h
  spread _ us p ms p' ms' hwritten hwritten' hname hothers hsame := by
    rw [rows_eq_of_written hwritten, rows_eq_of_written hwritten',
      rowsOfParagraphs_spread hname hothers hsame]
  exchanged _ _ _ _ _ _ _ hlines hlines' hline hline' :=
    rows_eq_of_restates h (hline.restates hline') hlines hlines'

/-- A script with two paragraphs for one left-hand side, a bar line and a comment. -/
def letterScript : String :=
  "A -> a | b // x\n | eps\nB: c\nA = d |"

theorem readsByParagraphs_of_areRegular_letters :
    rows letterScript =
        .ok [⟨"row-1", "A", ["a", "b", "d"], true⟩, ⟨"row-2", "B", ["c"], false⟩] ∧
      rows "A -> a \n| b // x\n | eps\nB: c\nA = d |" = rows letterScript ∧
      rows "A -> a\nA = b\nB: c\nA = eps | d |" = rows letterScript ∧
      rows "A : a | b // x\n | eps\nB: c\nA = d |" = rows letterScript := by
  have hA : IsName "A" := ⟨'A', [], by decide, by decide, by simp⟩
  have hB : IsName "B" := ⟨'B', [], by decide, by decide, by simp⟩
  have harrow : ∀ {A : Symbol}, IsName A → ∀ gap ∈ ["", " "], ∀ arrow ∈ arrows, ∀ rest,
      IsProductionLine (A ++ (gap ++ (arrow ++ rest))) A rest := by
    intro A hname gap hgap arrow harrow rest
    have hblank : (["", " "].all fun gap => gap.toList.all Text.isBlank) = true := by decide
    exact ⟨hname, gap, arrow, List.all_eq_true.mp (List.all_eq_true.mp hblank gap hgap), harrow,
      rfl⟩
  have hlines : cleaned letterScript = ["A -> a | b", "| eps", "B: c", "A = d |"] := by
    decide +kernel
  have hwritten : Written ([] ++ ⟨"A", " a | b", [" eps"]⟩ :: [⟨"B", " c", []⟩, ⟨"A", " d |", []⟩])
      (cleaned letterScript) := by
    rw [hlines]
    exact .cons (harrow hA " " (by decide) "->" (by decide) " a | b")
      (.cons (harrow hB "" (by decide) ":" (by decide) " c")
        (.cons (harrow hA " " (by decide) "=" (by decide) " d |") .nil))
  have hspread : Written ([] ++ ⟨"A", " a", []⟩ ::
      [⟨"A", " b", []⟩, ⟨"B", " c", []⟩, ⟨"A", " eps | d |", []⟩])
      (cleaned "A -> a\nA = b\nB: c\nA = eps | d |") := by
    have hlines' : cleaned "A -> a\nA = b\nB: c\nA = eps | d |" =
        ["A -> a", "A = b", "B: c", "A = eps | d |"] := by decide +kernel
    rw [hlines']
    exact .cons (harrow hA " " (by decide) "->" (by decide) " a")
      (.cons (harrow hA " " (by decide) "=" (by decide) " b")
        (.cons (harrow hB "" (by decide) ":" (by decide) " c")
          (.cons (harrow hA " " (by decide) "=" (by decide) " eps | d |") .nil)))
  have h := readsByParagraphs_of_areRegular hwritten.areRegular
  refine ⟨(h.rows_eq _ hwritten).trans (by decide +kernel), ?_, ?_, ?_⟩
  · exact h.broken _ "A -> a ".toList " b \n | eps\nB: c\nA = d |".toList (by decide +kernel)
      (by decide +kernel)
  · exact h.spread _ _ _ _ _ _ hwritten hspread rfl (by decide) (by decide +kernel)
  · exact h.exchanged _ [] _ "A : a | b" _ _ _ hlines (by decide +kernel)
      (harrow hA " " (by decide) "->" (by decide) " a | b")
      (harrow hA " " (by decide) ":" (by decide) " a | b")

end ShiftReduce.Script

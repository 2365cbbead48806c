import ShiftReduce.Proofs.Grammar.Comment
import ShiftReduce.Proofs.Grammar.LastAlternative

/-!
# Going on with the line above

A plain line goes on with the last alternative above it. It can be joined to the line above, with a
blank between them, where the two are joinable (`ShiftReduce.Script.Joinable`): a plain line is
taken as it is, whereas behind an arrow or a bar the text is cut at the bars, empty alternatives are
dropped, and spellings of the empty word are ticks. So there is to be no bar in the plain line, and
the last alternative of the line above is to be one that the row lists, or else be empty, with
nothing listed in the row that the plain line could go on with instead.

Then the rows stay the same, and in no other case (`ShiftReduce.Script.rows_join_iff`), for if they
are not joinable, what the row lists is another thing, and no line behind the two can mend that.
-/

namespace ShiftReduce.Script

variable {A : Symbol} {line rest plain : String} {before after : List String}

/-! ### Texts put together from lines -/

/-- What is put together from some lines comes first in what is put together from further ones. -/
theorem isInfix_intercalate (l more : List String) :
    ("\n".intercalate l).toList <:+: ("\n".intercalate (l ++ more)).toList := by
  by_cases hl : l = []
  · simp [hl]
  · by_cases hmore : more = []
    · simp [hmore]
    · rw [String.intercalate_append_of_ne_nil hl hmore, String.toList_append, String.toList_append,
        List.append_assoc]
      exact (List.prefix_append _ _).isInfix

/-- Joining two lines puts a blank in the place of a line break. -/
theorem exists_intercalate_join (before : List String) (line plain : String)
    (after : List String) : ∃ front back,
      "\n".intercalate (before ++ line :: plain :: after) = front ++ "\n" ++ back ∧
      "\n".intercalate (before ++ (line ++ " " ++ plain) :: after) = front ++ " " ++ back := by
  have hlines : "\n".intercalate (line :: plain :: after) =
      line ++ "\n" ++ "\n".intercalate (plain :: after) := String.intercalate_cons_cons
  have hjoined : "\n".intercalate ((line ++ " " ++ plain) :: after) =
      line ++ " " ++ "\n".intercalate (plain :: after) := String.intercalate_cons_append
  by_cases hbefore : before = []
  · subst hbefore
    exact ⟨line, _, hlines, hjoined⟩
  · refine ⟨"\n".intercalate before ++ "\n" ++ line, "\n".intercalate (plain :: after), ?_, ?_⟩
    · rw [String.intercalate_append_of_ne_nil hbefore (List.cons_ne_nil _ _), hlines]
      simp only [String.append_assoc]
    · rw [String.intercalate_append_of_ne_nil hbefore (List.cons_ne_nil _ _), hjoined]
      simp only [String.append_assoc]

/-- **Joining two lines makes no comment.** -/
theorem hasComment_join_iff (before : List String) (line plain : String) (after : List String) :
    Comment.HasComment ("\n".intercalate (before ++ (line ++ " " ++ plain) :: after)).toList ↔
      Comment.HasComment ("\n".intercalate (before ++ line :: plain :: after)).toList := by
  obtain ⟨front, back, hlines, hjoined⟩ := exists_intercalate_join before line plain after
  -- the two texts are the same one but for line breaks, and no comment begins or ends with these
  set f : Char → Char := fun c => if c = '\n' then ' ' else c with hf
  have hslash : ∀ c, f c = '/' ↔ c = '/' := fun c => by
    by_cases hc : c = '\n' <;> simp [hf, hc]
  have hstar : ∀ c, f c = '*' ↔ c = '*' := fun c => by
    by_cases hc : c = '\n' <;> simp [hf, hc]
  rw [hlines, hjoined, ← Comment.hasComment_map_iff hslash hstar,
    ← Comment.hasComment_map_iff hslash hstar (s := (front ++ "\n" ++ back).toList)]
  simp [hf]

/-- Joining two lines makes no line break. -/
theorem break_notMem_join (h : ∀ s ∈ before ++ line :: plain :: after, '\n' ∉ s.toList) :
    ∀ s ∈ before ++ (line ++ " " ++ plain) :: after, '\n' ∉ s.toList := by
  obtain ⟨hbefore, hlines⟩ := List.forall_mem_append.mp h
  obtain ⟨hline, hlater⟩ := List.forall_mem_cons.mp hlines
  obtain ⟨hplain, hafter⟩ := List.forall_mem_cons.mp hlater
  refine List.forall_mem_append.mpr ⟨hbefore, List.forall_mem_cons.mpr ⟨?_, hafter⟩⟩
  simp [hline, hplain]

/-- A script that is put together from lines and holds no comment is read line by line. -/
theorem read_intercalate_eq_readLines {l : List String}
    (hcomment : ¬Comment.HasComment ("\n".intercalate l).toList)
    (hbreak : ∀ s ∈ l, '\n' ∉ s.toList) :
    read ("\n".intercalate l) = Draft.readLines {} (Comment.numbered 1 l) := by
  rw [read_eq_readLines, Comment.lines_intercalate hcomment hbreak]

/-- A line is read after the lines in front of it, and before those behind it. -/
theorem read_intercalate_cons (before : List String) (line : String) (after : List String)
    (hcomment : ¬Comment.HasComment ("\n".intercalate (before ++ line :: after)).toList)
    (hbreak : ∀ s ∈ before ++ line :: after, '\n' ∉ s.toList) (hline : Text.strip line ≠ "") :
    read ("\n".intercalate (before ++ line :: after)) =
      ((read ("\n".intercalate before)).read (1 + before.length)
        (.ofText (Text.strip line))).readLines
          (Comment.numbered (1 + before.length + 1) after) := by
  have hbefore : ¬Comment.HasComment ("\n".intercalate before).toList := fun h =>
    hcomment (h.mono (isInfix_intercalate before _))
  rw [read_intercalate_eq_readLines hcomment hbreak, Comment.numbered_append,
    Draft.readLines_append, Comment.numbered_cons hline, Draft.readLines_cons,
    read_intercalate_eq_readLines hbefore fun s hs => hbreak s (List.mem_append_left _ hs)]

/-- The last of some lines is read after the others. -/
theorem read_intercalate_concat (before : List String) (line : String)
    (hcomment : ¬Comment.HasComment ("\n".intercalate (before ++ [line])).toList)
    (hbreak : ∀ s ∈ before ++ [line], '\n' ∉ s.toList) (hline : Text.strip line ≠ "") :
    read ("\n".intercalate (before ++ [line])) =
      (read ("\n".intercalate before)).read (1 + before.length) (.ofText (Text.strip line)) := by
  have hcons := read_intercalate_cons before line [] hcomment hbreak hline
  rwa [Comment.numbered_nil, Draft.readLines_nil] at hcons

/-- Scripts with the same problems give the same rows if there are problems, or if the rows that
are read are the same. -/
theorem rows_eq_iff {script script' : String}
    (hproblems : (read script').problems = (read script).problems) :
    rows script' = rows script ↔
      (read script).problems ≠ [] ∨ (read script').rows = (read script).rows := by
  rw [rows, rows, hproblems]
  split
  · next hnone => simp [hnone]
  · next problems hnone => simpa using Or.inl hnone

/-! ### Lines -/

/-- **A plain line**: it is not blank, it is no production line, and it begins with no bar. -/
structure IsPlainLine (line : String) : Prop where
  /-- The line is not empty. -/
  ne_empty : line ≠ ""
  /-- It is no production line. -/
  not_isProduction : ¬IsProduction line
  /-- It begins with no bar. -/
  head?_ne_bar : line.toList.head? ≠ some '|'

theorem IsPlainLine.ofText (h : IsPlainLine line) : Line.ofText line = .plain line := by
  rcases line_cases line with hproduction | ⟨rest, rfl⟩ | hplain
  · exact absurd hproduction h.not_isProduction
  · exact absurd (by simp) h.head?_ne_bar
  · exact hplain

instance (line : String) : Decidable (IsPlainLine line) :=
  decidable_of_iff (line ≠ "" ∧ ¬IsProduction line ∧ line.toList.head? ≠ some '|')
    ⟨fun h => ⟨h.1, h.2.1, h.2.2⟩, fun h => ⟨h.1, h.2, h.3⟩⟩

/-- **Where a line meets the next one**: the text of its last alternative, and the blanks at its
end. -/
structure Meets (line : String) (last tail : List Char) : Prop where
  /-- The text of an alternative holds no bar. -/
  bar_notMem : '|' ∉ last
  /-- The blanks at its end are not in it. -/
  isBlank_getLast? : ∀ c ∈ last.getLast?, Text.isBlank c = false
  /-- The line ends in blanks. -/
  isBlank : ∀ c ∈ tail, Text.isBlank c = true
  /-- There are none exactly if it does not end in a blank. -/
  tail_eq_nil_iff : tail = [] ↔ ∀ c ∈ line.toList.getLast?, Text.isBlank c = false

namespace Draft

variable {d : Draft}

theorem IsSound.select_eq_self (h : d.IsSound) (hA : d.current = some A) : d.select A = d := by
  have hany : d.rows.any (·.left = A) = true := by
    obtain ⟨r, hr, hleft⟩ := List.mem_map.mp (h.current_mem A hA)
    exact List.any_eq_true.mpr ⟨r, hr, decide_eq_true hleft⟩
  rw [Draft.select, if_pos hany, ← hA]

theorem update_congr {f g : Row → Row} (h : ∀ r ∈ d.rows, r.left = A → f r = g r) :
    d.update A f = d.update A g := by
  have hrows : (d.rows.map fun r => if r.left = A then f r else r) =
      d.rows.map fun r => if r.left = A then g r else r := by
    refine List.map_congr_left fun r hr => ?_
    split
    · next hleft => exact h r hr hleft
    · rfl
  rw [update, update, hrows]

/-- **A line that adds to the row of a name** the alternatives in a text: a production line of the
name, or a bar line below one. -/
inductive Adds (d : Draft) (A : Symbol) (line rest : String) : Prop
  /-- A production line of the name. -/
  | production (hline : IsProductionLine line A rest)
  /-- A bar line where the name is the current one. -/
  | bar (hline : line = "|" ++ rest) (hcurrent : d.current = some A)

theorem Adds.ne_empty (h : d.Adds A line rest) : line ≠ "" := by
  rintro rfl
  cases h with
  | production hline =>
    have hproduction := hline.production?_toList
    exact absurd hproduction (by simp [production?])
  | bar hline =>
    have hlist := congrArg String.toList hline
    exact absurd hlist (by simp)

theorem Adds.read_eq (h : d.Adds A line rest) (hd : d.IsSound) (number : ℕ) :
    d.read number (.ofText line) = (d.select A).enlarge A (alternativesIn rest) := by
  cases h with
  | production hline => exact read_production hline d number
  | bar hline hcurrent => rw [hline, read_bar hcurrent, hd.select_eq_self hcurrent]

theorem Adds.suffix (h : d.Adds A line rest) : rest.toList <:+ line.toList := by
  cases h with
  | production hline =>
    obtain ⟨-, gap, arrow, -, -, rfl⟩ := hline
    exact ⟨A.toList ++ (gap.toList ++ arrow.toList), by simp⟩
  | bar hline => exact ⟨['|'], by simp [hline]⟩

/-- What such a line ends in does not end in a blank, if the line does not. -/
theorem Adds.isBlank_getLast? {last : List Char} (h : d.Adds A (Text.strip line) rest)
    (hlast : last <:+ rest.toList) : ∀ c ∈ last.getLast?, Text.isBlank c = false := by
  intro c hc
  obtain ⟨front, hfront⟩ := hlast.trans h.suffix
  have hne : last ≠ [] := by
    rintro rfl
    exact absurd hc (by simp)
  refine Text.isBlank_getLast?_trim (s := line.toList) ?_
  rw [← String.toList_ofList (l := Text.trim line.toList), ← Text.strip, ← hfront,
    List.getLast?_append_of_ne_nil _ hne]
  exact hc

/-- **More text behind such a line** adds to the text of the alternatives. -/
theorem Adds.exists_strip_append {lead : List Char} (h : d.Adds A line rest)
    (hlead : ∀ c ∈ lead, Text.isBlank c = true) (more : String) :
    ∃ rest', d.Adds A (Text.strip (String.ofList lead ++ (line ++ more))) rest' ∧
      alternativesIn rest' = alternativesIn (rest ++ more) := by
  have hstrip : Text.strip (String.ofList lead ++ (line ++ more)) = Text.strip (line ++ more) := by
    rw [Text.strip, String.toList_append, String.toList_ofList, Text.trim_append_left _ hlead,
      Text.strip]
  rw [hstrip]
  cases h with
  | production hline =>
    obtain ⟨hname, gap, arrow, hgap, harrow, rfl⟩ := hline
    have hmore : IsProductionLine (A ++ (gap ++ (arrow ++ rest)) ++ more) A (rest ++ more) :=
      ⟨hname, gap, arrow, hgap, harrow, by simp only [String.append_assoc]⟩
    obtain ⟨rest', hline', hrest'⟩ := hmore.exists_strip
    exact ⟨rest', .production hline', hrest'⟩
  | bar hline hcurrent =>
    have hblank : Text.isBlank '|' = false := by decide
    obtain ⟨rest', hline', hrest'⟩ := Script.exists_strip_append "|" (rest ++ more) (by decide)
      (by simpa using hblank) (by simpa using hblank)
    rw [← String.append_assoc, ← hline] at hline'
    exact ⟨rest', .bar hline' hcurrent, hrest'⟩

/-- **A line joined to such a line** stands behind its last alternative, with the blanks at the end
of the line in between. -/
theorem Adds.exists_join (h : d.Adds A (Text.strip line) rest) (plain : String) :
    ∃ rest' init last tail, d.Adds A (Text.strip (line ++ " " ++ plain)) rest' ∧
      alternativesIn rest = init ++ [String.ofList (Text.trim last)] ∧
      alternativesIn rest' = init ++ alternativesIn (joinedText last tail plain) ∧
      Meets line last tail := by
  obtain ⟨lead, tail, hline, hlead, htail⟩ := Text.exists_eq_trim line.toList
  obtain ⟨init, last, hsuffix, hbar, hrest, hmore⟩ := exists_alternativesIn_append rest
  have hjoined : line ++ " " ++ plain = String.ofList lead ++
      (Text.strip line ++ (String.ofList tail ++ (" " ++ plain))) := by
    apply String.toList_inj.mp
    rw [String.append_assoc, String.toList_append, hline]
    simp [Text.strip]
  obtain ⟨rest', hadds, hrest'⟩ := h.exists_strip_append hlead _
  rw [← hjoined] at hadds
  refine ⟨rest', init, last, tail, hadds, hrest, hrest'.trans (hmore _), hbar,
    h.isBlank_getLast? hsuffix, htail, ?_, fun hend => ?_⟩
  · rintro rfl c hc
    have hne : Text.trim line.toList ≠ [] := by simpa [Text.strip] using h.ne_empty
    rw [hline, List.append_nil, List.getLast?_append_of_ne_nil _ hne] at hc
    exact Text.isBlank_getLast?_trim hc
  · rcases List.eq_nil_or_concat' tail with htail' | ⟨blanks, c, rfl⟩
    · exact htail'
    · have hblank := hend c (by rw [hline]; simp)
      simp [htail c] at hblank

/-- Such a line is no problem. -/
theorem Adds.problems_read (h : d.Adds A line rest) (number : ℕ) :
    (d.read number (.ofText line)).problems = d.problems ∧
      (d.read number (.ofText line)).current.isSome = true := by
  cases h with
  | production hline => exact read_of_isProduction ⟨A, rest, hline⟩ d number
  | bar hline hcurrent => exact read_of_isSome (by rw [hcurrent]; rfl) number _

end Draft

/-! ### Joining -/

/-- **When a plain line can be joined to the line above it**, which is the last one of which the
draft tells. -/
inductive Joinable (d : Draft) (A : Symbol) (line rest plain : String) : Prop
  /-- The last alternative of the line above is one that the row lists, and no further blanks stand
  where the two lines meet. -/
  | extended {x : String} (hlast : (alternativesIn rest).getLast? = some x) (hlisted : IsListed x)
    (hfront : ∀ c ∈ line.toList.getLast?, Text.isBlank c = false)
    (hback : ∀ c ∈ plain.toList.head?, Text.isBlank c = false)
  /-- The last alternative of the line above is empty, the row lists none yet, and the plain line
  does not spell the empty word. -/
  | begun (hlast : (alternativesIn rest).getLast? = some "")
    (hnone : ∀ r ∈ d.rows, r.left = A → r.right = [])
    (hspelled : Text.strip plain ∉ emptySpellings)

/-- **A plain line can be joined** if the row of the name goes on with it. -/
theorem joinable_iff {d : Draft} {init : List String} {last tail : List Char}
    (hmem : ∃ r ∈ d.rows, r.left = A) (hmeets : Meets line last tail)
    (hrest : alternativesIn rest = init ++ [String.ofList (Text.trim last)]) :
    Joinable (d.enlarge A (alternativesIn rest)) A line rest plain ↔
      ∀ r ∈ d.rows, r.left = A → GoesOn last tail plain (enlarge r init).right := by
  have hx : (alternativesIn rest).getLast? = some (String.ofList (Text.trim last)) := by
    simp [hrest]
  constructor
  · intro h r hr hleft
    cases h with
    | @extended x hlast hlisted hfront hback =>
      obtain rfl : String.ofList (Text.trim last) = x := Option.some.inj (hx.symm.trans hlast)
      exact .extended hlisted (hmeets.tail_eq_nil_iff.mpr hfront) hback
    | begun hlast hnone hspelled =>
      have hempty : String.ofList (Text.trim last) = "" := Option.some.inj (hx.symm.trans hlast)
      have hright := hnone (enlarge r (alternativesIn rest))
        (List.mem_map.mpr ⟨r, hr, if_pos hleft⟩) hleft
      rw [hrest, hempty, ← enlarge_enlarge, enlarge_empty] at hright
      exact .begun (by simpa using congrArg String.toList hempty) hright hspelled
  · intro h
    obtain ⟨r, hr, hleft⟩ := hmem
    cases h r hr hleft with
    | extended hlisted htail hback =>
      exact .extended hx hlisted (hmeets.tail_eq_nil_iff.mp htail) hback
    | begun hblank _ hspelled =>
      have hempty : String.ofList (Text.trim last) = "" := by rw [hblank]
      refine .begun (hempty ▸ hx) (fun s hs hleft' => ?_) hspelled
      obtain ⟨t, ht, rfl⟩ := List.mem_map.mp hs
      by_cases hname : t.left = A
      · simp only [if_pos hname, hrest, hempty, ← enlarge_enlarge, enlarge_empty]
        cases h t ht hname with
        | extended hlisted => exact absurd hempty hlisted.2
        | begun _ hright => exact hright
      · rw [if_neg hname] at hleft'
        exact absurd hleft' hname

namespace Draft

variable {d : Draft}

/-- Reads a line and the plain line below it. -/
def readBoth (d : Draft) (number : ℕ) (line plain : String) : Draft :=
  (d.read number (.ofText (Text.strip line))).read (number + 1) (.ofText (Text.strip plain))

/-- Reads the line to which the plain line is joined. -/
def readJoined (d : Draft) (number : ℕ) (line plain : String) : Draft :=
  d.read number (.ofText (Text.strip (line ++ " " ++ plain)))

theorem exists_mem_select (d : Draft) (A : Symbol) : ∃ r ∈ (d.select A).rows, r.left = A := by
  unfold select
  split
  · next hany =>
    obtain ⟨r, hr, hleft⟩ := List.any_eq_true.mp hany
    exact ⟨r, hr, of_decide_eq_true hleft⟩
  · exact ⟨_, List.mem_append_right _ (List.mem_singleton_self _), rfl⟩

/-- **Both ways of reading change one row**, with the same alternatives in front of the last one. -/
theorem Adds.exists_read_join (h : d.Adds A (Text.strip line) rest) (hd : d.IsSound)
    (hplain : IsPlainLine (Text.strip plain)) (number : ℕ) : ∃ init last tail,
      Meets line last tail ∧ alternativesIn rest = init ++ [String.ofList (Text.trim last)] ∧
      d.readBoth number line plain = (d.select A).update A (fun r =>
        extendLast (Script.enlarge (Script.enlarge r init) [String.ofList (Text.trim last)])
          (Text.strip plain)) ∧
      d.readJoined number line plain = (d.select A).update A fun r =>
        Script.enlarge (Script.enlarge r init) (alternativesIn (joinedText last tail plain)) := by
  obtain ⟨rest', init, last, tail, hadds, hrest, hrest', hmeets⟩ := h.exists_join plain
  refine ⟨init, last, tail, hmeets, hrest, ?_, ?_⟩
  · have hread : d.readBoth number line plain =
        ((d.select A).enlarge A (init ++ [String.ofList (Text.trim last)])).update A
          (extendLast · (Text.strip plain)) := by
      rw [readBoth, h.read_eq hd, hrest, hplain.ofText]
      simp [Draft.read]
    have hleft : ∀ r, (Script.enlarge r (init ++ [String.ofList (Text.trim last)])).left = r.left :=
      fun _ => rfl
    rw [hread, enlarge, update_update hleft]
    simp only [Script.enlarge_enlarge]
  · rw [readJoined, hadds.read_eq hd, hrest', enlarge]
    simp only [Script.enlarge_enlarge]

/-- Reading a line and the plain line below it. -/
theorem Adds.problems_readBoth (h : d.Adds A (Text.strip line) rest) (plain : String) (number : ℕ) :
    (d.readBoth number line plain).problems = d.problems ∧
      (d.readBoth number line plain).current.isSome = true := by
  obtain ⟨hproblems, hcurrent⟩ := h.problems_read number
  obtain ⟨hboth, hcurrent'⟩ := read_of_isSome hcurrent (number + 1) (.ofText (Text.strip plain))
  exact ⟨hboth.trans hproblems, hcurrent'⟩

theorem Adds.problems_readJoined (h : d.Adds A (Text.strip line) rest) (plain : String)
    (number : ℕ) : (d.readJoined number line plain).problems = d.problems ∧
      (d.readJoined number line plain).current.isSome = true := by
  obtain ⟨rest', -, -, -, hadds, -⟩ := h.exists_join plain
  exact hadds.problems_read number

/-- **Both ways of reading leave parallel drafts**, and what these list is the same exactly if the
plain line can be joined. Then the drafts are the same. -/
theorem Adds.compare (h : d.Adds A (Text.strip line) rest) (hd : d.IsSound)
    (hplain : IsPlainLine (Text.strip plain)) (number : ℕ) :
    (d.readJoined number line plain).Parallel (d.readBoth number line plain) ∧
      ((d.readJoined number line plain).contents = (d.readBoth number line plain).contents →
        '|' ∉ plain.toList ∧
          Joinable (d.read number (.ofText (Text.strip line))) A line rest plain) ∧
      ('|' ∉ plain.toList ∧
          Joinable (d.read number (.ofText (Text.strip line))) A line rest plain →
        d.readJoined number line plain = d.readBoth number line plain) := by
  obtain ⟨init, last, tail, hmeets, hrest, hboth, hjoined⟩ := h.exists_read_join hd hplain number
  have hmem := d.exists_mem_select A
  rw [hboth, hjoined, h.read_eq hd, joinable_iff hmem hmeets hrest]
  have hleft : ∀ r, (extendLast (Script.enlarge (Script.enlarge r init)
      [String.ofList (Text.trim last)]) (Text.strip plain)).left = r.left :=
    fun _ => (reversible_extendLast _).left_eq _
  have hleft' : ∀ r, (Script.enlarge (Script.enlarge r init)
      (alternativesIn (joinedText last tail plain))).left = r.left := fun _ => rfl
  refine ⟨⟨rfl, ?_⟩, fun hsame => ?_, fun hgoes => ?_⟩
  · rw [map_left_update hleft, map_left_update hleft']
  · rw [contents_update_eq_iff hleft' hleft] at hsame
    have hgoes : ∀ r ∈ (d.select A).rows, r.left = A →
        '|' ∉ plain.toList ∧ GoesOn last tail plain (Script.enlarge r init).right :=
      fun r hr hname => goesOn_of_right_extendLast_eq hmeets.bar_notMem hmeets.isBlank_getLast?
        hmeets.isBlank hplain.ne_empty (hsame r hr hname).symm
    obtain ⟨r, hr, hname⟩ := hmem
    exact ⟨(hgoes r hr hname).1, fun r hr hname => (hgoes r hr hname).2⟩
  · refine update_congr fun r hr hname => Eq.symm ?_
    exact (hgoes.2 r hr hname).extendLast_eq hmeets.bar_notMem hmeets.isBlank_getLast?
      hmeets.isBlank hplain.ne_empty hgoes.1

end Draft

/-- **When a plain line can be joined to the line above it**, with a blank between them: the rows
stay the same exactly if the two are joinable, and there is no bar in the plain line, or else if the
script has orphans, which then are what is reported. -/
theorem rows_join_iff (hbreak : ∀ s ∈ before ++ line :: plain :: after, '\n' ∉ s.toList)
    (hcomment : ¬Comment.HasComment ("\n".intercalate (before ++ line :: plain :: after)).toList)
    (hadds : (read ("\n".intercalate before)).Adds A (Text.strip line) rest)
    (hplain : IsPlainLine (Text.strip plain)) :
    rows ("\n".intercalate (before ++ (line ++ " " ++ plain) :: after)) =
        rows ("\n".intercalate (before ++ line :: plain :: after)) ↔
      orphans ("\n".intercalate (before ++ line :: plain :: after)) ≠ [] ∨
        '|' ∉ plain.toList ∧
          Joinable (read ("\n".intercalate (before ++ [line]))) A line rest plain := by
  obtain ⟨d, hd⟩ : ∃ d, read ("\n".intercalate before) = d := ⟨_, rfl⟩
  obtain ⟨n, hn⟩ : ∃ n, 1 + before.length = n := ⟨_, rfl⟩
  have hsound : d.IsSound := hd ▸ isSound_read _
  rw [hd] at hadds
  obtain ⟨hproblems, hcurrent⟩ := hadds.problems_readBoth plain n
  obtain ⟨hproblems', hcurrent'⟩ := hadds.problems_readJoined plain n
  obtain ⟨hparallel, hgoes, hsame⟩ := hadds.compare hsound hplain n
  -- the lines behind have other numbers now, which does not matter below a production line
  have hread : read ("\n".intercalate (before ++ line :: plain :: after)) =
      (d.readBoth n line plain).readLines (Comment.numbered (n + 1) after) := by
    rw [read_intercalate_cons before line _ hcomment hbreak hadds.ne_empty,
      Comment.numbered_cons hplain.ne_empty, Draft.readLines_cons, hd, hn, ← Draft.readBoth]
    refine Draft.readLines_congr hcurrent ?_
    rw [Comment.map_snd_numbered, Comment.map_snd_numbered]
  have hread' : read ("\n".intercalate (before ++ (line ++ " " ++ plain) :: after)) =
      (d.readJoined n line plain).readLines (Comment.numbered (n + 1) after) := by
    obtain ⟨rest', -, -, -, hadds', -⟩ := hadds.exists_join plain
    have hcomment' := mt (hasComment_join_iff before line plain after).mp hcomment
    rw [read_intercalate_cons before _ after hcomment' (break_notMem_join hbreak) hadds'.ne_empty,
      hd, hn, ← Draft.readJoined]
  have habove : read ("\n".intercalate (before ++ [line])) =
      d.read n (.ofText (Text.strip line)) := by
    have hlist : before ++ line :: plain :: after = (before ++ [line]) ++ plain :: after := by simp
    rw [hlist] at hcomment hbreak
    rw [read_intercalate_concat before line
      (fun h => hcomment (h.mono (isInfix_intercalate _ _)))
      (fun s hs => hbreak s (List.mem_append_left _ hs)) hadds.ne_empty, hd, hn]
  have horphans : orphans ("\n".intercalate (before ++ line :: plain :: after)) ≠ [] ↔
      (read ("\n".intercalate (before ++ line :: plain :: after))).problems ≠ [] := by
    rw [problems_read, ne_eq, ne_eq, List.map_eq_nil_iff]
  rw [rows_eq_iff, horphans, habove]
  · refine or_congr_right ⟨fun hrows => hgoes ?_, fun hjoin => ?_⟩
    · refine (hparallel.contents_readLines_iff hcurrent' (Comment.numbered (n + 1) after)).mp ?_
      rw [hread, hread'] at hrows
      rw [Draft.contents, Draft.contents, hrows]
    · rw [hread, hread', hsame hjoin]
  · rw [hread, hread', (Draft.readLines_of_isSome hcurrent).1,
      (Draft.readLines_of_isSome hcurrent').1, hproblems, hproblems']

theorem rows_join_iff_letters :
    rows "A -> x /\n | a b c d/ \t\nB : e" = rows "A -> x /\n | a b\nc d/ \t\nB : e" ∧
      rows "A -> x /\n | a b\nc d/ \t\nB : e" =
        .ok [⟨"row-1", "A", ["x /", "a b c d/"], false⟩, ⟨"row-2", "B", ["e"], false⟩] ∧
      rows "B -> | eps |   c" = rows "B -> | eps | \n c" ∧
      rows "B -> | eps | \n c" = .ok [⟨"row-1", "B", ["c"], true⟩] := by
  have hfront : ∀ c ∈ " | a b".toList.getLast?, Text.isBlank c = false := by
    have hblank : Text.isBlank 'b' = false := by decide
    simpa using hblank
  have hback : ∀ c ∈ "c d/ \t".toList.head?, Text.isBlank c = false := by
    have hblank : Text.isBlank 'c' = false := by decide
    simpa using hblank
  have hjoin := (@rows_join_iff "A" " | a b" " a b" "c d/ \t" ["A -> x /"] ["B : e"]
    (by decide +kernel)
    (Comment.isPlain_iff.mpr ⟨by decide +kernel, by decide +kernel⟩).not_hasComment
    (.bar (by decide +kernel) (by decide +kernel)) (by decide +kernel)).mpr
    (Or.inr ⟨by decide, .extended (x := "a b") (by decide +kernel) (by decide +kernel) hfront
      hback⟩)
  have hbegin := (@rows_join_iff "B" "B -> | eps | " " | eps |" " c" [] [] (by decide +kernel)
    (Comment.isPlain_iff.mpr ⟨by decide +kernel, by decide +kernel⟩).not_hasComment
    (.production ⟨⟨'B', [], by decide, by decide, List.forall_mem_nil _⟩, " ", "->",
      List.all_eq_true.mp (by decide), by decide, by decide +kernel⟩) (by decide +kernel)).mpr
    (Or.inr ⟨by decide, .begun (by decide +kernel) (by decide +kernel) (by decide +kernel)⟩)
  have hscripts : "\n".intercalate (["A -> x /"] ++ (" | a b" ++ " " ++ "c d/ \t") :: ["B : e"]) =
      "A -> x /\n | a b c d/ \t\nB : e" ∧
      "\n".intercalate (["A -> x /"] ++ " | a b" :: "c d/ \t" :: ["B : e"]) =
        "A -> x /\n | a b\nc d/ \t\nB : e" := by decide +kernel
  have hscripts' : "\n".intercalate ([] ++ ["B -> | eps | " ++ " " ++ " c"]) =
      "B -> | eps |   c" ∧
      "\n".intercalate ([] ++ ["B -> | eps | ", " c"]) = "B -> | eps | \n c" := by decide +kernel
  rw [hscripts.1, hscripts.2] at hjoin
  rw [hscripts'.1, hscripts'.2] at hbegin
  exact ⟨hjoin, by decide +kernel, hbegin, by decide +kernel⟩

/-- **Not every plain line can be joined to the line above it.** It may hold a bar or spell the
empty word, and the line above may end in a bar, in a spelling of the empty word or in a blank. -/
theorem rows_join_ne :
    IsProduction (Text.strip "A -> a") ∧ IsPlainLine (Text.strip "b | c") ∧
      ¬Comment.HasComment ("\n".intercalate ["A -> a", "b | c"]).toList ∧
      rows ("\n".intercalate ["A -> a" ++ " " ++ "b | c"]) =
        .ok [⟨"row-1", "A", ["a b", "c"], false⟩] ∧
      rows ("\n".intercalate ["A -> a", "b | c"]) = .ok [⟨"row-1", "A", ["a b | c"], false⟩] ∧
      rows ("\n".intercalate ["A -> a" ++ " " ++ "b | c"]) ≠
        rows ("\n".intercalate ["A -> a", "b | c"]) ∧
      rows "A -> eps" = .ok [⟨"row-1", "A", [], true⟩] ∧
      rows "A ->\neps" = .ok [⟨"row-1", "A", ["eps"], false⟩] ∧
      rows "A -> a | b" = .ok [⟨"row-1", "A", ["a", "b"], false⟩] ∧
      rows "A -> a |\nb" = .ok [⟨"row-1", "A", ["a b"], false⟩] ∧
      rows "A -> a | eps b" = .ok [⟨"row-1", "A", ["a", "eps b"], false⟩] ∧
      rows "A -> a | eps\nb" = .ok [⟨"row-1", "A", ["a b"], true⟩] ∧
      rows "A -> a  b" = .ok [⟨"row-1", "A", ["a  b"], false⟩] ∧
      rows "A -> a \nb" = .ok [⟨"row-1", "A", ["a b"], false⟩] := by
  have hjoined : rows ("\n".intercalate ["A -> a" ++ " " ++ "b | c"]) =
      .ok [⟨"row-1", "A", ["a b", "c"], false⟩] := by decide +kernel
  have hlines : rows ("\n".intercalate ["A -> a", "b | c"]) =
      .ok [⟨"row-1", "A", ["a b | c"], false⟩] := by decide +kernel
  refine ⟨by decide +kernel, by decide +kernel, fun h => absurd h.slash_mem (by decide +kernel),
    hjoined, hlines, ?_, by decide +kernel⟩
  rw [hjoined, hlines]
  exact fun hsame => absurd (Except.ok.inj hsame) (by decide)

end ShiftReduce.Script

import ShiftReduce.Proofs.Grammar.Paragraph
import ShiftReduce.Proofs.Grammar.Parallel

/-!
# Going on with the last alternative

A plain line can come to a row in two ways: the row goes on with the line, or the line stands behind
the text of the last alternative and is cut at the bars with it
(`ShiftReduce.Script.joinedText`). What the row lists then is the same exactly if there is no bar in
the line, and either the alternative is one that the row lists, and the two texts meet without
further blanks, or it is blank, the row lists nothing yet, and the line does not spell the empty
word (`ShiftReduce.Script.GoesOn`, `ShiftReduce.Script.goesOn_of_right_extendLast_eq`). Then it is
also the same row (`ShiftReduce.Script.GoesOn.extendLast_eq`).
-/

namespace ShiftReduce.Script

/-- **An alternative that a row lists**: it is not empty, and it does not spell the empty word. -/
def IsListed (x : String) : Prop :=
  x ∉ emptySpellings ∧ x ≠ ""

instance : DecidablePred IsListed := fun x =>
  inferInstanceAs (Decidable (x ∉ emptySpellings ∧ x ≠ ""))

/-- The text of a last alternative, blanks behind it, one more blank, and a plain line. -/
def joinedText (last tail : List Char) (plain : String) : String :=
  String.ofList last ++ (String.ofList tail ++ (" " ++ plain))

/-- **When a row goes on with a plain line** as if the line stood behind the last alternative. -/
inductive GoesOn (last tail : List Char) (plain : String) (right : List String) : Prop
  /-- The alternative is one that the row lists, and no further blanks stand between the two. -/
  | extended (hlisted : IsListed (String.ofList (Text.trim last))) (htail : tail = [])
    (hback : ∀ c ∈ plain.toList.head?, Text.isBlank c = false)
  /-- The alternative is blank, the row lists nothing, and it lists the plain line. -/
  | begun (hblank : Text.trim last = []) (hright : right = [])
    (hspelled : Text.strip plain ∉ emptySpellings)

variable {last tail : List Char} {plain : String} {row : Row}

/-! ### Texts of alternatives -/

/-- **What stands behind a text** goes on with the last alternative in it. -/
theorem exists_alternativesIn_append (text : String) : ∃ init last, last <:+ text.toList ∧
    '|' ∉ last ∧ alternativesIn text = init ++ [String.ofList (Text.trim last)] ∧
    ∀ more : String, alternativesIn (text ++ more) =
      init ++ alternativesIn (String.ofList last ++ more) := by
  obtain ⟨front, last, htext, happend⟩ := Text.exists_splitOn_append '|' text.toList
  have hbar : '|' ∉ last := Text.notMem_of_mem_splitOn (s := text.toList) (by rw [htext]; simp)
  refine ⟨front.map fun s => String.ofList (Text.trim s), last,
    Text.suffix_of_splitOn_eq_append htext, hbar, ?_, fun more => ?_⟩
  · simp [alternativesIn, Text.pieces, htext, Text.strip]
  · obtain ⟨front', last', hlast, happend'⟩ := Text.exists_splitOn_append '|' last
    rw [List.splitOn_eq_singleton hbar, ← List.nil_append [last]] at hlast
    obtain ⟨rfl, hsame⟩ := List.append_inj' hlast rfl
    obtain rfl := List.singleton_inj.mp hsame
    simp [alternativesIn, Text.pieces, happend, happend', Text.strip]

theorem alternativesIn_joinedText (hlast : '|' ∉ last) (htail : ∀ c ∈ tail, Text.isBlank c = true)
    (hbar : '|' ∉ plain.toList) : alternativesIn (joinedText last tail plain) =
      [String.ofList (Text.trim (last ++ ((tail ++ [' ']) ++ plain.toList)))] := by
  have hjoined : (joinedText last tail plain).toList =
      last ++ ((tail ++ [' ']) ++ plain.toList) := by
    simp [joinedText]
  have hnone : '|' ∉ tail ++ [' '] := fun hmem => by
    rcases List.mem_append.mp hmem with hmem | hmem
    · exact absurd (htail _ hmem) (by decide)
    · exact absurd hmem (by decide)
  rw [alternativesIn_of_notMem, Text.strip, hjoined]
  simp only [hjoined, List.mem_append (s := last), List.mem_append (s := tail ++ [' ']), not_or]
  exact ⟨hlast, hnone, hbar⟩

/-- An alternative that ends in the whole plain line is the only one. -/
theorem eq_trim_of_mem {x : String} (hlast : '|' ∉ last)
    (htail : ∀ c ∈ tail, Text.isBlank c = true)
    (hx : x ∈ alternativesIn (joinedText last tail plain))
    (hend : Text.trim plain.toList <:+ x.toList) : '|' ∉ plain.toList ∧
      x.toList = Text.trim (last ++ ((tail ++ [' ']) ++ plain.toList)) := by
  have hbar : '|' ∉ plain.toList := fun hmem =>
    bar_notMem_of_mem_alternativesIn hx (hend.subset ((Text.mem_trim_iff (by decide)).mpr hmem))
  rw [alternativesIn_joinedText hlast htail hbar, List.mem_singleton] at hx
  exact ⟨hbar, by rw [hx, String.toList_ofList]⟩

/-! ### Rows -/

theorem right_enlarge (row : Row) (texts : List String) :
    (enlarge row texts).right = row.right ++ texts.filter (IsListed ·) := rfl

theorem enlarge_empty (row : Row) : enlarge row [""] = row := by
  have hempty : "" ∉ emptySpellings := by decide
  simp [enlarge, hempty]

/-- Going on with an alternative that the row lists. -/
theorem extendLast_enlarge {x : String} (hx : IsListed x) (row : Row) (text : String) :
    extendLast (enlarge row [x]) text = enlarge row [x ++ " " ++ text] := by
  have hspelled : x ++ " " ++ text ∉ emptySpellings := by
    have hspellings : ∀ y ∈ emptySpellings, ' ' ∉ y.toList := by decide
    exact fun hmem => hspellings _ hmem (by simp)
  have hne : x ++ " " ++ text ≠ "" := fun hempty => by
    have hlist := congrArg String.toList hempty
    exact absurd hlist (by simp)
  simp [enlarge, extendLast, hx.1, hx.2, hspelled, hne]

/-- Going on where the row lists nothing begins an alternative. -/
theorem extendLast_of_right_eq_nil {text : String} (hrow : row.right = []) (htext : IsListed text) :
    extendLast row text = enlarge row [text] := by
  simp [enlarge, extendLast, hrow, htext.1, htext.2]

/-! ### The same row -/

/-- **The row is the same one**, whichever way the plain line comes to it. -/
theorem GoesOn.extendLast_eq (h : GoesOn last tail plain row.right) (hbar : '|' ∉ last)
    (hlast : ∀ c ∈ last.getLast?, Text.isBlank c = false)
    (htail : ∀ c ∈ tail, Text.isBlank c = true) (hplain : Text.strip plain ≠ "")
    (hbar' : '|' ∉ plain.toList) :
    extendLast (enlarge row [String.ofList (Text.trim last)]) (Text.strip plain) =
      enlarge row (alternativesIn (joinedText last tail plain)) := by
  have hplain' : Text.trim plain.toList ≠ [] := fun hnil => hplain (by rw [Text.strip, hnil])
  rw [alternativesIn_joinedText hbar htail hbar']
  cases h with
  | extended hlisted htail' hback =>
    have hlast' : Text.trim last ≠ [] := fun hnil => hlisted.2 (by rw [hnil])
    obtain ⟨lead, hlead, htrim⟩ := Text.exists_trim_append hlast hlast' hplain'
    rw [extendLast_enlarge hlisted, htrim, hlead.mpr hback, htail']
    refine congrArg (fun x => enlarge row [x]) (String.toList_inj.mp ?_)
    simp [Text.strip]
  | begun hblank hright hspelled =>
    have htrim : Text.trim (last ++ ((tail ++ [' ']) ++ plain.toList)) =
        Text.trim plain.toList := by
      rw [Text.trim_append_of_trim_eq_nil hblank, Text.trim_append_left]
      exact List.forall_mem_append.mpr ⟨htail, List.all_eq_true.mp (by decide)⟩
    have hempty : String.ofList [] = "" := rfl
    rw [hblank, hempty, enlarge_empty, htrim, ← Text.strip]
    exact extendLast_of_right_eq_nil hright ⟨hspelled, hplain⟩

/-- **If the row lists the same, it goes on**: between the last alternative and the plain line there
is no room for anything else. -/
theorem goesOn_of_right_extendLast_eq (hbar : '|' ∉ last)
    (hlast : ∀ c ∈ last.getLast?, Text.isBlank c = false)
    (htail : ∀ c ∈ tail, Text.isBlank c = true) (hplain : Text.strip plain ≠ "")
    (h : (extendLast (enlarge row [String.ofList (Text.trim last)]) (Text.strip plain)).right =
      (enlarge row (alternativesIn (joinedText last tail plain))).right) :
    '|' ∉ plain.toList ∧ GoesOn last tail plain row.right := by
  have hplain' : Text.trim plain.toList ≠ [] := fun hnil => hplain (by rw [Text.strip, hnil])
  rw [right_extendLast, right_enlarge, right_enlarge] at h
  by_cases hlisted : IsListed (String.ofList (Text.trim last))
  · have hlast' : Text.trim last ≠ [] := fun hnil => hlisted.2 (by rw [hnil])
    rw [List.filter_cons_of_pos (by simpa using hlisted), List.filter_nil, extended_concat] at h
    have hmem := List.mem_of_mem_filter (List.append_cancel_left h ▸ List.mem_singleton_self _)
    obtain ⟨hbar', hwhole⟩ :=
      eq_trim_of_mem hbar htail hmem ⟨Text.trim last ++ [' '], by simp [Text.strip]⟩
    obtain ⟨lead, hlead, htrim⟩ := Text.exists_trim_append hlast hlast' hplain'
    have hlength : tail.length = 0 ∧ lead.length = 0 := by
      have hlength := congrArg List.length (hwhole.trans (htrim _))
      simp [Text.strip] at hlength
      omega
    exact ⟨hbar', .extended hlisted (List.eq_nil_of_length_eq_zero hlength.1)
      (hlead.mp (List.eq_nil_of_length_eq_zero hlength.2))⟩
  · rw [List.filter_cons_of_neg (by simpa using hlisted), List.filter_nil, List.append_nil] at h
    rcases List.eq_nil_or_concat' row.right with hright | ⟨front, x, hright⟩
    · rw [hright, extended_nil, List.nil_append] at h
      obtain ⟨hmem, hspelled⟩ := List.mem_filter.mp (h ▸ List.mem_singleton_self _)
      obtain ⟨hbar', hwhole⟩ :=
        eq_trim_of_mem hbar htail hmem ⟨[], by simp [Text.strip]⟩
      refine ⟨hbar', .begun ?_ hright (of_decide_eq_true hspelled).1⟩
      by_contra hlast'
      obtain ⟨lead, -, htrim⟩ := Text.exists_trim_append hlast hlast' hplain'
      have hlength := congrArg List.length (hwhole.trans (htrim _))
      simp [Text.strip] at hlength
      omega
    · -- an alternative that stands further in front gets longer only if the row goes on
      rw [hright, extended_concat, List.append_assoc] at h
      exact absurd (List.cons.inj (List.append_cancel_left h)).1 (append_ne x _).1

end ShiftReduce.Script

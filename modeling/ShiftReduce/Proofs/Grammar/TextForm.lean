import ShiftReduce.Grammar.Row
import ShiftReduce.Proofs.Grammar.Printed
import ShiftReduce.Proofs.Grammar.Scripted

/-!
# One row, as a script and as a JSON object

The alternatives of a left-hand side can be written as a line of a script, or as the text that a
JSON object has for them. Both texts are cut at the bars, and in both of them blanks at the ends of
an alternative do not count. They say the same (`ShiftReduce.Grammar.Agree`) unless some alternative
spells the empty word: in a script this is a tick, whereas a JSON object has a field of its own for
the tick, and takes the spelling for a symbol (`ShiftReduce.Grammar.ofScript_agrees_iff`). What a
script says is always said by the row that has the tick instead (`ShiftReduce.Row.ticked`).

Which grammar a single row describes depends on its right-hand sides only
(`ShiftReduce.Grammar.agree_singleton_iff`), so this is a matter of comparing these.
-/

namespace ShiftReduce

/-- An alternative that spells the empty word, perhaps with blanks at its ends. -/
def Script.Spells (alternative : String) : Prop :=
  Text.strip alternative ∈ Script.emptySpellings

instance : DecidablePred Script.Spells := fun alternative =>
  inferInstanceAs (Decidable (Text.strip alternative ∈ Script.emptySpellings))

/-- **The row with a tick for the alternatives that spell the empty word.** -/
def Row.ticked (r : Row) : Row :=
  { r with
    right := r.right.filter (¬Script.Spells ·)
    hasEpsilon := r.hasEpsilon || r.right.any (Script.Spells ·) }

namespace Grammar

/-! ### The same grammar, or none -/

/-- **Both fail, or both give the same grammar.** -/
def Agree (outcome outcome' : Except (List Problem) Grammar) : Prop :=
  (∃ g, outcome = .ok g ∧ outcome' = .ok g) ∨
    ∃ problems problems', outcome = .error problems ∧ outcome' = .error problems'

theorem Agree.symm {x y : Except (List Problem) Grammar} (h : Agree x y) : Agree y x := by
  rcases h with ⟨g, hx, hy⟩ | ⟨problems, problems', hx, hy⟩
  · exact Or.inl ⟨g, hy, hx⟩
  · exact Or.inr ⟨problems', problems, hy, hx⟩

theorem Agree.trans {x y z : Except (List Problem) Grammar} (h : Agree x y) (h' : Agree y z) :
    Agree x z := by
  rcases h with ⟨g, rfl, rfl⟩ | ⟨problems, problems', rfl, rfl⟩
  · simpa [Agree] using h'
  · simpa [Agree] using h'

variable {rows : List Row} {r r' : Row}

theorem exists_error_iff : (∃ problems, ofRows rows = .error problems) ↔ ¬Admissible rows := by
  rw [← exists_ofRows_iff]
  cases ofRows rows <;> simp

/-- Rows that are not admissible agree with each other. -/
theorem agree_of_not_admissible {rows' : List Row} (h : ¬Admissible rows)
    (h' : ¬Admissible rows') : Agree (ofRows rows) (ofRows rows') := by
  obtain ⟨problems, hproblems⟩ := exists_error_iff.mpr h
  obtain ⟨problems', hproblems'⟩ := exists_error_iff.mpr h'
  exact Or.inr ⟨problems, problems', hproblems, hproblems'⟩

/-! ### A single row -/

/-- The end marker is in a right-hand side of a row exactly if it is in an alternative. -/
theorem endMarker_mem_bodies_iff : (∃ body ∈ r.bodies, endMarker ∈ body) ↔
    ∃ alternative ∈ r.right, '$' ∈ alternative.toList := by
  constructor
  · rintro ⟨body, hbody, hmark⟩
    rcases List.mem_append.mp hbody with hbody | hbody
    · split at hbody
      · rw [List.mem_singleton.mp hbody] at hmark
        exact absurd hmark List.not_mem_nil
      · exact absurd hbody List.not_mem_nil
    · obtain ⟨alternative, hmem, rfl⟩ := List.mem_map.mp hbody
      exact ⟨alternative, (List.mem_filter.mp hmem).1, endMarker_mem_lexemesOf.mp hmark⟩
  · rintro ⟨alternative, hmem, hmark⟩
    refine ⟨_, List.mem_append_right _ (List.mem_map_of_mem (List.mem_filter.mpr ⟨hmem, ?_⟩)),
      endMarker_mem_lexemesOf.mpr hmark⟩
    exact Script.offers_iff_exists.mpr ⟨'$', hmark, by decide⟩

/-- **A single row** whose left-hand side is a name is admissible if it has a right-hand side and
none of them uses the end marker. -/
theorem admissible_singleton_iff (hname : Script.IsName r.left) :
    Admissible [r] ↔ r.bodies ≠ [] ∧ ∀ body ∈ r.bodies, endMarker ∉ body := by
  have hlhs : r.lhs = r.left := hname.strip_eq
  have hne : r.lhs ≠ "" := hlhs ▸ hname.ne_empty
  have hmarked := not_congr (endMarker_mem_bodies_iff (r := r))
  push Not at hmarked
  rw [hmarked, bodies_ne_nil]
  constructor
  · intro h
    obtain ⟨s, hs, -, hcontent⟩ := h.productive
    obtain rfl := List.mem_singleton.mp hs
    exact ⟨hcontent, h.unreserved s hs hne⟩
  · rintro ⟨hcontent, hmark⟩
    have hall : ∀ {p : Row → Prop}, p r → ∀ s ∈ [r], p s := fun hr s hs =>
      List.mem_singleton.mp hs ▸ hr
    constructor
    · exact ⟨r, [], rfl, hne⟩
    · exact hall fun hempty => absurd hempty hne
    · exact hall fun c hc => hname.isBlank (hlhs ▸ hc)
    · simp [leftSides, hne]
    · exact hall fun _ => hmark
    · exact ⟨r, List.mem_singleton_self r, hne, hcontent⟩

/-- **Single rows of one left-hand side agree** if they have the same right-hand sides, or if
neither is admissible. -/
theorem agree_singleton_iff (r r' : Row) (hname : Script.IsName r.left)
    (hleft : r'.left = r.left) : Agree (ofRows [r]) (ofRows [r']) ↔
      r'.bodies = r.bodies ∨ ¬Admissible [r] ∧ ¬Admissible [r'] := by
  have hlhs : r'.lhs = r.lhs := by rw [Row.lhs, Row.lhs, hleft]
  have hne : r.lhs ≠ "" := by
    rw [Row.lhs, hname.strip_eq]
    exact hname.ne_empty
  constructor
  · rintro (⟨g, hg, hg'⟩ | ⟨problems, problems', hg, hg'⟩)
    · left
      -- the productions of a grammar are the right-hand sides of its rows, in their order
      have hrules : listed [r'] = listed [r] := by
        rw [← (ofRows_records hg).rules, ← (ofRows_records hg').rules]
      rw [← listed_eq_bodies, ← listed_eq_bodies]
      have hinjective : Function.Injective fun rhs : List Symbol => (Text.strip r.left, rhs) :=
        fun _ _ hpair => (Prod.mk.inj hpair).2
      refine List.map_injective_iff.mpr hinjective ?_
      simpa [listed, hleft] using hrules
    · exact Or.inr ⟨exists_error_iff.mp ⟨_, hg⟩, exists_error_iff.mp ⟨_, hg'⟩⟩
  · rintro (hbodies | ⟨h, h'⟩)
    · have hadmissible : Admissible [r'] ↔ Admissible [r] := by
        rw [admissible_singleton_iff hname, admissible_singleton_iff (hleft ▸ hname), hbodies]
      by_cases h : Admissible [r]
      · obtain ⟨g, hg⟩ := exists_ofRows_iff.mpr h
        refine Or.inl ⟨g, hg, ?_⟩
        rw [← hg]
        refine ofRows_congr (problemsOfRows_eq_nil_iff.mpr h)
          (problemsOfRows_eq_nil_iff.mpr (hadmissible.mpr h)) ?_ ?_ ?_
        · simp [hlhs]
        · simp [leftSides, hlhs]
        · simp [rulesOfRows, hlhs, hne, hbodies]
      · exact agree_of_not_admissible h (mt hadmissible.mp h)
    · exact agree_of_not_admissible h h'

/-! ### Spellings of the empty word -/

/-- An alternative that spells the empty word does not hold the end marker. -/
theorem marker_notMem_of_spells {alternative : String} (h : Script.Spells alternative) :
    '$' ∉ alternative.toList := by
  have hspellings : ∀ x ∈ Script.emptySpellings, '$' ∉ x.toList := by decide
  intro hmark
  refine hspellings _ h ?_
  rw [Text.strip, String.toList_ofList]
  exact (Text.mem_trim_iff (by decide)).mpr hmark

/-- **A row without a tick says the same as the ticked one** if some alternative holds the end
marker, or if none of them spells the empty word. -/
theorem agree_ticked_iff (hname : Script.IsName r.left) (hunticked : r.hasEpsilon = false) :
    Agree (ofRows [r.ticked]) (ofRows [r]) ↔ (∃ alternative ∈ r.right, '$' ∈ alternative.toList) ∨
      ∀ alternative ∈ r.right, ¬Script.Spells alternative := by
  have hname' : Script.IsName r.ticked.left := hname
  rw [agree_singleton_iff r.ticked r hname' rfl]
  have hmarked : (∃ body ∈ r.ticked.bodies, endMarker ∈ body) ↔
      ∃ alternative ∈ r.right, '$' ∈ alternative.toList := by
    rw [endMarker_mem_bodies_iff]
    constructor
    · rintro ⟨alternative, hmem, hmark⟩
      exact ⟨alternative, (List.mem_filter.mp hmem).1, hmark⟩
    · rintro ⟨alternative, hmem, hmark⟩
      refine ⟨alternative, List.mem_filter.mpr ⟨hmem, ?_⟩, hmark⟩
      exact decide_eq_true fun hspells => marker_notMem_of_spells hspells hmark
  constructor
  · intro h
    by_contra hnot
    push Not at hnot
    obtain ⟨hmark, alternative, hmem, hspells⟩ := hnot
    -- the tick is a right-hand side that the row itself does not have
    have htick : [] ∈ r.ticked.bodies := by
      rw [nil_mem_bodies, Row.ticked, Bool.or_eq_true]
      exact Or.inr (List.any_eq_true.mpr ⟨alternative, hmem, decide_eq_true hspells⟩)
    rcases h with hbodies | ⟨hticked, -⟩
    · rw [← hbodies, nil_mem_bodies, hunticked] at htick
      exact absurd htick (by simp)
    · refine hticked ((admissible_singleton_iff hname').mpr ⟨List.ne_nil_of_mem htick, ?_⟩)
      have hnone := mt hmarked.mp (by push Not; exact hmark)
      push Not at hnone
      exact hnone
  · rintro (hmark | hnone)
    · right
      obtain ⟨body, hbody, hused⟩ := endMarker_mem_bodies_iff.mpr hmark
      obtain ⟨body', hbody', hused'⟩ := hmarked.mpr hmark
      rw [admissible_singleton_iff hname, admissible_singleton_iff hname']
      exact ⟨fun h => h.2 body' hbody' hused', fun h => h.2 body hbody hused⟩
    · left
      have hright : r.right.filter (¬Script.Spells ·) = r.right :=
        List.filter_eq_self.mpr fun alternative hmem => decide_eq_true (hnone alternative hmem)
      have hany : r.right.any (Script.Spells ·) = false :=
        List.any_eq_false.mpr fun alternative hmem => by simpa using hnone alternative hmem
      have hsame : r.ticked = r := by rw [Row.ticked, hright, hany, Bool.or_false]
      rw [hsame]

end Grammar

/-! ### The line of a row -/

namespace Script

variable {A : Symbol} {s : String}

/-- **A script of one production line** gives one row. -/
theorem rows_productionLine {line rest : String} (h : IsProductionLine line A rest)
    (hcomment : ¬Comment.HasComment line.toList) (hbreak : '\n' ∉ line.toList) :
    rows line = .ok [rowOfAlternatives "row-1" A (alternativesIn rest)] := by
  obtain ⟨rest', hline, hrest⟩ := h.exists_strip
  have hne : Text.strip line ≠ "" := fun hempty => by
    have hproduction := hline.production?_toList
    rw [hempty] at hproduction
    exact absurd hproduction (by simp [production?])
  have hjoin : "\n".intercalate [line] = line := by simp
  have hlines := Comment.lines_intercalate (l := [line]) (by rwa [hjoin]) (by simpa using hbreak)
  rw [hjoin] at hlines
  have hcleaned : cleaned line = [Text.strip line] := by
    rw [cleaned, hlines, Comment.map_snd_numbered]
    simp [hne]
  have hwritten : Written [⟨A, rest', []⟩] (cleaned line) := by
    rw [hcleaned]
    exact .cons hline .nil
  have halternatives : alternativesOf A [⟨A, rest', []⟩] = alternativesIn rest := by
    rw [alternativesOf_singleton, if_pos rfl, Paragraph.alternatives, List.flatMap_singleton, hrest]
  rw [rows_eq_of_written hwritten, ← halternatives]
  rfl

/-- The row of a line that holds no comment. -/
theorem rows_line (hname : IsName A) (hbreak : '\n' ∉ s.toList)
    (hline : ¬['/', '/'] <:+: s.toList) (hblock : ¬['/', '*'] <:+: s.toList) :
    rows (A ++ " -> " ++ s) = .ok [rowOfAlternatives "row-1" A (alternativesIn s)] := by
  have hproduction : IsProductionLine (A ++ " -> " ++ s) A (" " ++ s) :=
    ⟨hname, " ", "->", List.all_eq_true.mp (by decide), by decide, by
      apply String.toList_inj.mp
      simp⟩
  have hfront : '\n' ∉ (A ++ " -> ").toList ∧ '/' ∉ (A ++ " -> ").toList := by
    rw [String.toList_append]
    constructor
    · simpa using fun hmem => absurd (hname.isBlank hmem) (by decide)
    · simpa using fun hmem => (hname.not_isMark hmem).2 rfl
  have hplain : Comment.IsPlain (A ++ " -> " ++ s).toList := by
    rw [String.toList_append]
    exact (Comment.isPlain_iff.mpr ⟨hline, hblock⟩).append_left hfront.2
  have hrest : alternativesIn (" " ++ s) = alternativesIn s := by
    have hblank : ∀ c ∈ [' '], Text.isBlank c = true := List.all_eq_true.mp (by decide)
    have hsame := alternativesIn_blanks s.toList hblank (List.forall_mem_nil _)
    simpa using hsame
  rw [rows_productionLine hproduction hplain.not_hasComment, hrest]
  rw [String.toList_append, List.mem_append, not_or]
  exact ⟨hfront.1, hbreak⟩

/-- The right-hand sides of a row of alternatives are those of the row with a tick for the
spellings of the empty word. -/
theorem bodies_rowOfAlternatives (id : String) (A : Symbol) (right : List String) :
    (rowOfAlternatives id A (right.map Text.strip)).bodies =
      (Row.ticked ⟨id, A, right, false⟩).bodies := by
  set texts := right.map Text.strip with htexts
  have hstrip : ∀ text ∈ texts, Text.strip text = text :=
    List.forall_mem_map.mpr fun text _ => Text.strip_strip text
  have hright : ((texts.filter fun text => text ∉ emptySpellings ∧ text ≠ "").map
      Text.strip).filter (· ≠ "") =
      ((right.filter (¬Spells ·)).map Text.strip).filter (· ≠ "") := by
    have hmap : (texts.filter fun text => text ∉ emptySpellings ∧ text ≠ "").map Text.strip =
        texts.filter fun text => text ∉ emptySpellings ∧ text ≠ "" :=
      (List.map_congr_left fun text htext => hstrip text (List.mem_filter.mp htext).1).trans
        (List.map_id _)
    have hfilter : (right.filter (¬Spells ·)).map Text.strip =
        texts.filter (· ∉ emptySpellings) := by
      rw [htexts, List.filter_map]
      rfl
    rw [hmap, hfilter, List.filter_filter, List.filter_filter]
    refine List.filter_congr fun text _ => ?_
    by_cases hempty : text = "" <;> simp [hempty]
  have htick : texts.any (· ∈ emptySpellings) = (false || right.any (Spells ·)) := by
    rw [htexts, List.any_map, Bool.false_or]
    rfl
  -- both rows list their alternatives without the blanks at the ends, and then they are equal
  rw [← Grammar.listed_eq_bodies, ← Grammar.listed_eq_bodies, Row.listed, Row.listed,
    rowOfAlternatives, Row.ticked]
  simp only [hright, htick]

/-- The alternatives that a JSON object has for a text are those of the text. -/
theorem rowOfAlternatives_eq (id : String) (A : Symbol) (s : String) :
    rowOfAlternatives id A (alternativesIn s) = rowOfAlternatives id A
      ((if s = "" then [] else Text.pieces '|' s).map Text.strip) := by
  split
  · next hempty =>
    subst hempty
    rfl
  · rfl

end Script

namespace Grammar

theorem agree_rowOfAlternatives {A : Symbol} (hname : Script.IsName A) (id : String)
    (right : List String) :
    Agree (ofRows [Script.rowOfAlternatives id A (right.map Text.strip)])
      (ofRows [Row.ticked ⟨id, A, right, false⟩]) := by
  have hleft : (Script.rowOfAlternatives id A (right.map Text.strip)).left = A := rfl
  have hagree := agree_singleton_iff (Script.rowOfAlternatives id A (right.map Text.strip))
    (Row.ticked ⟨id, A, right, false⟩) (hleft ▸ hname) rfl
  exact hagree.mpr (Or.inl (Script.bodies_rowOfAlternatives id A right).symm)

/-- The row of a JSON object that has texts for a name and for its alternatives. -/
theorem ofFields_texts {A : Symbol} (hA : A ≠ "") (s : String) :
    Row.ofFields [("left", .str A), ("right", .str s)] 0 =
      .ok ⟨"row-1", A, if s = "" then [] else Text.pieces '|' s, false⟩ := by
  set fields : List (String × Json.Value) := [("left", .str A), ("right", .str s)]
  have hright : Json.Value.field fields "right" = .str s := rfl
  have hleft : Json.Value.field fields "left" = .str A := rfl
  have hid : Json.Value.field fields "id" = .null := rfl
  have htick : Json.Value.field fields "hasEpsilon" = .null := rfl
  have hgiven : (Json.Value.str A).isGiven = true := by simpa [Json.Value.isGiven] using hA
  rw [Row.ofFields, hright, hleft, hid, htick]
  simp only [hgiven, if_true]
  rfl

/-- **A script of one line and a JSON object** with the same text of alternatives for the same name
agree if the text holds the end marker, or if none of its alternatives spells the empty word, and
then only. The script always agrees with the row that has a tick instead of such spellings. -/
theorem ofScript_agrees_iff {A s : String} (hname : Script.IsName A) (hbreak : '\n' ∉ s.toList)
    (hline : ¬['/', '/'] <:+: s.toList) (hblock : ¬['/', '*'] <:+: s.toList) :
    ∃ r, Row.ofFields [("left", .str A), ("right", .str s)] 0 = .ok r ∧
      (Agree (ofScript (A ++ " -> " ++ s)) (ofRows [r]) ↔
        '$' ∈ s.toList ∨ ∀ alternative ∈ r.right, ¬Script.Spells alternative) ∧
      Agree (ofScript (A ++ " -> " ++ s)) (ofRows [r.ticked]) := by
  set r : Row := ⟨"row-1", A, if s = "" then [] else Text.pieces '|' s, false⟩ with hr
  have hmarked : '$' ∈ s.toList ↔ ∃ alternative ∈ r.right, '$' ∈ alternative.toList := by
    rw [hr]
    split
    · next hempty => simp [hempty]
    · rw [← Text.exists_mem_splitOn_iff (c := '|') (by decide), Text.pieces]
      simp
  have hscript : Agree (ofScript (A ++ " -> " ++ s)) (ofRows [r.ticked]) := by
    rw [Script.ofScript_of_rows (Script.rows_line hname hbreak hline hblock),
      Script.rowOfAlternatives_eq]
    exact agree_rowOfAlternatives hname "row-1" _
  refine ⟨r, ofFields_texts hname.ne_empty s, ?_, hscript⟩
  rw [hmarked, ← agree_ticked_iff hname rfl]
  exact ⟨hscript.symm.trans, hscript.trans⟩

/-- A text with a blank alternative, a slash and an apostrophe. -/
def slashText : String :=
  "b A' /| | c* \t"

theorem ofScript_agrees_iff_slashText :
    Agree (ofScript "A' -> b A' /| | c* \t")
      (ofRows [⟨"row-1", "A'", ["b A' /", " ", " c* \t"], false⟩]) := by
  have hname : Script.IsName "A'" :=
    ⟨'A', "'".toList, by decide, by decide, List.all_eq_true.mp (by decide +kernel)⟩
  obtain ⟨r, hr, hiff, -⟩ := ofScript_agrees_iff (s := slashText) hname (by decide +kernel)
    (by decide +kernel) (by decide +kernel)
  have hpieces : (if slashText = "" then [] else Text.pieces '|' slashText) =
      ["b A' /", " ", " c* \t"] := by decide +kernel
  have hscript : "A'" ++ " -> " ++ slashText = "A' -> b A' /| | c* \t" := by decide +kernel
  have hfields := ofFields_texts hname.ne_empty slashText
  rw [hpieces] at hfields
  obtain rfl := Except.ok.inj (hr.symm.trans hfields)
  rw [hscript] at hiff
  exact hiff.mpr (Or.inr (by decide +kernel))

/-- **A spelling of the empty word is a symbol in a JSON object**, so the two texts do not always
agree. -/
theorem ofScript_of_spelling :
    Script.IsName "A" ∧ '\n' ∉ "eps".toList ∧ ¬['/', '/'] <:+: "eps".toList ∧
      ¬['/', '*'] <:+: "eps".toList ∧
      ofScript ("A" ++ " -> " ++ "eps") = .ok {
        start := "A"
        nonTerminals := .ofList ["A"]
        terminals := .ofList []
        productions := [⟨0, "A", [], "A -> ε"⟩] } ∧
      ∃ r, Row.ofFields [("left", .str "A"), ("right", .str "eps")] 0 = .ok r ∧
        ofRows [r] = .ok {
          start := "A"
          nonTerminals := .ofList ["A"]
          terminals := .ofList ["eps"]
          productions := [⟨0, "A", ["eps"], "A -> eps"⟩] } ∧
        ¬Agree (ofScript ("A" ++ " -> " ++ "eps")) (ofRows [r]) := by
  have hscript : ofScript ("A" ++ " -> " ++ "eps") = .ok ⟨"A", .ofList ["A"], .ofList [],
      [⟨0, "A", [], "A -> ε"⟩]⟩ := by decide +kernel
  have hrow : ofRows [⟨"row-1", "A", ["eps"], false⟩] = .ok ⟨"A", .ofList ["A"], .ofList ["eps"],
      [⟨0, "A", ["eps"], "A -> eps"⟩]⟩ := by decide +kernel
  have hpieces : (if "eps" = "" then [] else Text.pieces '|' "eps") = ["eps"] := by decide +kernel
  have hfields := ofFields_texts (A := "A") (by decide) "eps"
  rw [hpieces] at hfields
  refine ⟨⟨'A', [], by decide, by decide, List.forall_mem_nil _⟩, by decide, by decide, by decide,
    hscript, ⟨"row-1", "A", ["eps"], false⟩, hfields, hrow, ?_⟩
  rw [hscript, hrow]
  rintro (⟨g, hg, hg'⟩ | ⟨problems, problems', hg, -⟩)
  · have hsame := congrArg Grammar.productions (Except.ok.inj (hg.trans hg'.symm))
    exact absurd hsame (by decide)
  · exact absurd hg (by simp)

end Grammar

end ShiftReduce

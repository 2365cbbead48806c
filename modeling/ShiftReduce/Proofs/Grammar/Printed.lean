import ShiftReduce.Proofs.Grammar.Comment
import ShiftReduce.Proofs.Grammar.Paragraph
import ShiftReduce.Proofs.Grammar.Validation

/-!
# Reading a grammar back from its productions

Written one to a line, the productions of a grammar form a script. Reading this script gives the
grammar back (`ShiftReduce.Grammar.ofScript_printed`), provided that the script can say what the
grammar says (`ShiftReduce.Grammar.Printable`): a production line begins with a name, a bar and two
slashes have a meaning of their own, and so has a right-hand side that spells the empty word.

The line of a rule consists of lexemes with blanks between them, so it is taken apart into the same
lexemes again. What the lines of one left-hand side leave behind is a row that lists their
right-hand sides in their order, with a tick for the empty one
(`ShiftReduce.Script.rowOfBodies`), and the lines of a whole grammar leave one such row for each of
the rows from which it was built (`ShiftReduce.Script.restated`).
-/

namespace ShiftReduce

/-! ### The line of a rule -/

namespace Production

/-- The words that show a right-hand side. -/
def spelled (rhs : List Symbol) : List Symbol :=
  if rhs = [] then [emptyWord] else rhs

theorem spelled_ne_nil (rhs : List Symbol) : spelled rhs ≠ [] := by
  by_cases h : rhs = [] <;> simp [spelled, h]

theorem mem_spelled {rhs : List Symbol} {x : Symbol} (h : x ∈ spelled rhs) :
    x = emptyWord ∨ x ∈ rhs := by
  unfold spelled at h
  split at h
  · exact Or.inl (List.mem_singleton.mp h)
  · exact Or.inr h

/-- **The line of a rule** is its left-hand side, the arrow and the words of its right-hand side,
with blanks between them. -/
theorem arrow_eq_intercalate (A : Symbol) (rhs : List Symbol) :
    arrow A rhs = " ".intercalate (A :: "->" :: spelled rhs) := by
  have hbody : (if rhs.isEmpty then emptyWord else " ".intercalate rhs) =
      " ".intercalate (spelled rhs) := by
    by_cases h : rhs = [] <;> simp [spelled, h]
  obtain ⟨x, words, hwords⟩ := List.exists_cons_of_ne_nil (spelled_ne_nil rhs)
  have harrow : (" -> " : String) = " " ++ ("->" ++ " ") := by decide
  rw [arrow, hbody, hwords, String.intercalate_cons_cons, String.intercalate_cons_cons, harrow]
  simp only [String.append_assoc]

theorem text_of_authored {p : Production} (h : p.authored = arrow p.lhs p.rhs) :
    p.text = arrow p.lhs p.rhs := by
  rw [text, h, ite_self]

end Production

namespace Script

variable {A : Symbol} {rhs : List Symbol}

/-- A name without blanks is a lexeme. -/
theorem IsName.isLexeme (h : IsName A) (hblank : ∀ c ∈ A.toList, Text.isBlank c = false) :
    Text.IsLexeme A.toList := by
  refine Or.inr ⟨?_, fun c hc => Text.isOrdinary_iff.mpr ⟨hblank c hc, (h.not_isMark hc).1⟩⟩
  obtain ⟨c, rest, hlist, -⟩ := h
  rw [hlist]
  exact List.cons_ne_nil c rest

/-- A lexeme without two slashes in a row is plain. -/
theorem isPlain_of_isLexeme {w : List Char} (hw : Text.IsLexeme w)
    (hslash : ¬['/', '/'] <:+: w) : Comment.IsPlain w := by
  rw [Comment.IsPlain, List.isChain_iff_forall_rel_of_append_cons_cons]
  rintro a b before behind rfl rfl
  refine ⟨?_, ?_⟩
  · rintro rfl
    exact hslash ⟨before, behind, by simp⟩
  · rintro rfl
    -- a star is a lexeme of its own, so no slash stands before it
    have hstar := congrArg List.length (hw.eq_of_isMark (c := '*') (by simp) (by decide))
    simp only [List.length_append, List.length_cons, List.length_nil] at hstar
    omega

/-- **What a script can say of a rule**: the left-hand side is a name, the symbols of the right-hand
side are lexemes other than the bar and hold no two slashes in a row, and they do not spell the
empty word. -/
structure Sayable (A : Symbol) (rhs : List Symbol) : Prop where
  /-- The left-hand side is a name. -/
  named : IsName A
  /-- The left-hand side holds no blank. -/
  unspaced : ∀ c ∈ A.toList, Text.isBlank c = false
  /-- The symbols are lexemes. -/
  lexeme : ∀ x ∈ rhs, Text.IsLexeme x.toList
  /-- None of them is the bar. -/
  unbarred : "|" ∉ rhs
  /-- None of them holds two slashes in a row. -/
  uncommented : ∀ x ∈ rhs, ¬['/', '/'] <:+: x.toList
  /-- They do not spell the empty word. -/
  unspelled : ∀ x ∈ emptySpellings, rhs ≠ [x]

namespace Sayable

/-- The words of the line of a rule are lexemes. -/
theorem isLexeme_of_mem_words (h : Sayable A rhs) {x : Symbol}
    (hx : x ∈ A :: "->" :: Production.spelled rhs) : Text.IsLexeme x.toList := by
  have hrun : ∀ y : Symbol, y.toList ≠ [] → y.toList.all Text.isOrdinary = true →
      Text.IsLexeme y.toList := fun y hne hall => Or.inr ⟨hne, List.all_eq_true.mp hall⟩
  rcases List.mem_cons.mp hx with rfl | hx
  · exact h.named.isLexeme h.unspaced
  · rcases List.mem_cons.mp hx with rfl | hx
    · exact hrun _ (by decide) (by decide)
    · rcases Production.mem_spelled hx with rfl | hx
      · exact hrun _ (by decide) (by decide)
      · exact h.lexeme x hx

theorem isLexeme_of_mem_map (h : Sayable A rhs) :
    ∀ w ∈ (A :: "->" :: Production.spelled rhs).map String.toList, Text.IsLexeme w :=
  List.forall_mem_map.mpr fun _ hx => h.isLexeme_of_mem_words hx

/-- The words of the line of a rule hold no two slashes in a row. -/
theorem isPlain_of_mem_words (h : Sayable A rhs) {x : Symbol}
    (hx : x ∈ A :: "->" :: Production.spelled rhs) : Comment.IsPlain x.toList := by
  refine isPlain_of_isLexeme (h.isLexeme_of_mem_words hx) ?_
  have hslash : ∀ y : Symbol, '/' ∉ y.toList → ¬['/', '/'] <:+: y.toList := fun y hy hin =>
    hy (hin.subset List.mem_cons_self)
  rcases List.mem_cons.mp hx with rfl | hx
  · exact hslash _ fun hmem => (h.named.not_isMark hmem).2 rfl
  · rcases List.mem_cons.mp hx with rfl | hx
    · exact hslash _ (by decide)
    · rcases Production.mem_spelled hx with rfl | hx
      · exact hslash _ (by decide)
      · exact h.uncommented x hx

theorem toList_arrow (A : Symbol) (rhs : List Symbol) : (Production.arrow A rhs).toList =
    [' '].intercalate ((A :: "->" :: Production.spelled rhs).map String.toList) := by
  rw [Production.arrow_eq_intercalate, String.toList_intercalate]
  rfl

/-- The line of a rule is what `Comment.lines` gives back: plain and on one line, with no blanks at
its ends. -/
theorem isPlain_arrow (h : Sayable A rhs) : Comment.IsPlain (Production.arrow A rhs).toList := by
  rw [toList_arrow]
  exact Comment.isPlain_intercalate (by decide) (by decide)
    (List.forall_mem_map.mpr fun _ hx => h.isPlain_of_mem_words hx)

theorem break_notMem_arrow (h : Sayable A rhs) : '\n' ∉ (Production.arrow A rhs).toList := by
  rw [toList_arrow]
  intro hmem
  rcases Text.mem_of_mem_intercalate hmem with hc | ⟨w, hw, hc⟩
  · exact absurd hc (by decide)
  · exact absurd ((h.isLexeme_of_mem_map w hw).isBlank hc) (by decide)

theorem strip_arrow (h : Sayable A rhs) :
    Text.strip (Production.arrow A rhs) = Production.arrow A rhs := by
  rw [Text.strip, toList_arrow, Text.trim_intercalate h.isLexeme_of_mem_map, ← toList_arrow,
    String.ofList_toList]

theorem arrow_ne (A : Symbol) (rhs : List Symbol) : Production.arrow A rhs ≠ "" := by
  intro hempty
  have hlist := congrArg (fun s => '>' ∈ s.toList) hempty
  simp [Production.arrow] at hlist

/-- The text of a right-hand side. -/
theorem toList_body (rhs : List Symbol) : (" ".intercalate (Production.spelled rhs)).toList =
    [' '].intercalate ((Production.spelled rhs).map String.toList) := by
  rw [String.toList_intercalate]
  rfl

theorem isLexeme_of_mem_body (h : Sayable A rhs) :
    ∀ w ∈ (Production.spelled rhs).map String.toList, Text.IsLexeme w := fun w hw =>
  h.isLexeme_of_mem_map w (List.mem_cons_of_mem _ (List.mem_cons_of_mem _ hw))

/-- **The line of a rule is a production line** of its left-hand side. -/
theorem isProductionLine_arrow (h : Sayable A rhs) : IsProductionLine (Production.arrow A rhs) A
    (" " ++ " ".intercalate (Production.spelled rhs)) := by
  refine ⟨h.named, " ", "->", List.all_eq_true.mp (by decide), by decide, ?_⟩
  obtain ⟨x, words, hwords⟩ := List.exists_cons_of_ne_nil (Production.spelled_ne_nil rhs)
  rw [Production.arrow_eq_intercalate, hwords, String.intercalate_cons_cons,
    String.intercalate_cons_cons]
  simp only [String.append_assoc]

/-- The line of a rule is read with the words of its right-hand side. -/
theorem ofText_arrow (h : Sayable A rhs) : Line.ofText (Production.arrow A rhs) =
    .production A (" ".intercalate (Production.spelled rhs)) := by
  set body := " ".intercalate (Production.spelled rhs) with hbody
  have htrim : Text.trimStart (" " ++ body).toList = body.toList := by
    have hspace : (" " ++ body).toList = ' ' :: body.toList := by simp
    rw [hspace, Text.trimStart, List.dropWhile_cons_of_pos (by decide), hbody, toList_body]
    exact Text.trimStart_eq_self (Text.isBlank_head?_intercalate h.isLexeme_of_mem_body)
  rw [h.isProductionLine_arrow.ofText, htrim, String.ofList_toList]

end Sayable

/-! ### The lines of one left-hand side -/

/-- The row that lists the given right-hand sides of a left-hand side, each as a text. -/
def rowOfBodies (id : String) (A : Symbol) (bodies : List (List Symbol)) : Row where
  id
  left := A
  right := (bodies.filter (· ≠ [])).map fun rhs => " ".intercalate rhs
  hasEpsilon := decide ([] ∈ bodies)

/-- A text of lexemes that spells the empty word is a single one of them. -/
theorem Sayable.intercalate_notMem (h : Sayable A rhs) :
    " ".intercalate rhs ∉ emptySpellings := by
  intro hmem
  have hsingle : ∀ x ∈ emptySpellings, Text.lexemesOf x = [x] := by decide +kernel
  have hcut := Text.lexemesOf_intercalate h.lexeme
  rw [hsingle _ hmem] at hcut
  exact h.unspelled _ hmem hcut.symm

theorem Sayable.bar_notMem_body (h : Sayable A rhs) :
    '|' ∉ (" ".intercalate (Production.spelled rhs)).toList := by
  rw [Sayable.toList_body]
  intro hmem
  rcases Text.mem_of_mem_intercalate hmem with hc | ⟨w, hw, hc⟩
  · exact absurd hc (by decide)
  · have hword := (h.isLexeme_of_mem_body w hw).eq_of_isMark hc (by decide)
    obtain ⟨x, hx, rfl⟩ := List.mem_map.mp hw
    obtain rfl : x = "|" := String.toList_inj.mp hword
    rcases Production.mem_spelled hx with hempty | hx
    · exact absurd hempty (by decide)
    · exact h.unbarred hx

/-- **One more line adds its right-hand side to the row.** -/
theorem Sayable.addAlternatives_rowOfBodies (h : Sayable A rhs) (id : String)
    (bodies : List (List Symbol)) :
    addAlternatives (rowOfBodies id A bodies) (" ".intercalate (Production.spelled rhs)) =
      rowOfBodies id A (bodies ++ [rhs]) := by
  set text := " ".intercalate (Production.spelled rhs) with htext
  have hstrip : Text.strip text = text := by
    rw [Text.strip, htext, Sayable.toList_body, Text.trim_intercalate h.isLexeme_of_mem_body,
      ← Sayable.toList_body, String.ofList_toList]
  have hpieces : Text.pieces '|' text = [text] := by
    rw [Text.pieces, List.splitOn_eq_singleton h.bar_notMem_body, List.map_singleton,
      String.ofList_toList]
  rw [addAlternatives, hpieces, List.map_singleton, hstrip, List.foldl_cons, List.foldl_nil]
  by_cases hrhs : rhs = []
  · subst hrhs
    have hspelling : text ∈ emptySpellings := by
      rw [htext]
      decide
    rw [if_pos hspelling]
    simp [rowOfBodies]
  · have hbody : text = " ".intercalate rhs := by rw [htext, Production.spelled, if_neg hrhs]
    have hne : text ≠ "" := by
      intro hempty
      have hcut := Text.lexemesOf_intercalate h.lexeme
      rw [← hbody, hempty] at hcut
      exact hrhs hcut.symm
    rw [if_neg (hbody ▸ h.intercalate_notMem), if_neg hne, hbody]
    simp [rowOfBodies, hrhs, List.filter_append, Ne.symm hrhs]

/-! ### The rows of a script -/

namespace Draft

variable {d : Draft} {f : Row → Row} {r : Row}

/-- Reads the line of a rule. -/
def produce (d : Draft) (rule : Symbol × List Symbol) : Draft :=
  (d.select rule.1).update rule.1
    (addAlternatives · (" ".intercalate (Production.spelled rule.2)))

theorem read_arrow (h : Sayable A rhs) (d : Draft) (number : ℕ) :
    d.read number (.ofText (Production.arrow A rhs)) = d.produce (A, rhs) := by
  rw [h.ofText_arrow]
  rfl

/-- **The lines of a left-hand side that is new leave one row more.** -/
theorem foldl_produce_of_new {bodies : List (List Symbol)} (hold : ∀ r ∈ d.rows, r.left ≠ A)
    (hsay : ∀ rhs ∈ bodies, Sayable A rhs) (hne : bodies ≠ []) :
    (bodies.map (A, ·)).foldl produce d =
      { d with
        rows := d.rows ++ [rowOfBodies ("row-" ++ toString (d.rows.length + 1)) A bodies]
        current := some A } := by
  set id := "row-" ++ toString (d.rows.length + 1) with hid
  induction bodies using List.reverseRecOn with
  | nil => exact absurd rfl hne
  | append_singleton bodies rhs ih =>
    have hrhs := hsay rhs (by simp)
    have hupdate := map_update_append (l := d.rows) (r := rowOfBodies id A bodies)
      (f := (addAlternatives · (" ".intercalate (Production.spelled rhs)))) hold
    simp only [hrhs.addAlternatives_rowOfBodies] at hupdate
    rw [List.map_append, List.foldl_append, List.map_singleton, List.foldl_cons, List.foldl_nil]
    by_cases hfirst : bodies = []
    · -- the first line begins the row
      have hnone : ¬d.rows.any (·.left = A) = true := by simpa using hold
      subst hfirst
      rw [List.map_nil, List.foldl_nil, produce, select, if_neg hnone, update]
      exact congrArg (Draft.mk · (some A) d.problems) hupdate
    · have hall : ∀ b ∈ bodies, Sayable A b := fun b hb => hsay b (List.mem_append_left _ hb)
      have hany : (d.rows ++ [rowOfBodies id A bodies]).any (·.left = A) = true := by
        simp [rowOfBodies]
      rw [ih hall hfirst, produce, select, if_pos hany, update]
      exact congrArg (Draft.mk · (some A) d.problems) hupdate

end Draft

/-- **The rows that the script of a grammar gives**, by the rows from which the grammar was built:
one for each left-hand side, with its right-hand sides. -/
def restated (rows : List Row) : List Row :=
  ((rows.filter (·.lhs ≠ "")).zipIdx 1).map fun (r, k) =>
    rowOfBodies ("row-" ++ toString k) r.lhs r.bodies

theorem restated_append {rows : List Row} {r : Row} (hr : r.lhs ≠ "") :
    restated (rows ++ [r]) = restated rows ++
      [rowOfBodies ("row-" ++ toString ((restated rows).length + 1)) r.lhs r.bodies] := by
  simp [restated, List.filter_append, hr, List.zipIdx_append, Nat.add_comm]

/-- A property that only the row itself matters for holds of the restated rows. -/
theorem map_restated {α : Type} (f : Row → α) (g : Row → α) (rows : List Row)
    (h : ∀ id, ∀ r ∈ rows, r.lhs ≠ "" → f (rowOfBodies id r.lhs r.bodies) = g r) :
    (restated rows).map f = (rows.filter (·.lhs ≠ "")).map g := by
  have hpairs : ∀ e ∈ (rows.filter (·.lhs ≠ "")).zipIdx 1,
      f (rowOfBodies ("row-" ++ toString e.2) e.1.lhs e.1.bodies) = g e.1 := by
    intro e he
    obtain ⟨hr, hne⟩ := List.mem_filter.mp (List.fst_mem_of_mem_zipIdx he)
    exact h _ _ hr (of_decide_eq_true hne)
  rw [restated, List.map_map]
  refine (List.map_congr_left hpairs).trans ?_
  change List.map (g ∘ Prod.fst) _ = _
  rw [← List.map_map, List.zipIdx_map_fst]

/-- **The lines of a grammar, read one after the other, leave the restated rows.** -/
theorem exists_foldl_produce {rows : List Row} (hdistinct : (Grammar.leftSides rows).Nodup)
    (hsay : ∀ rule ∈ Grammar.rulesOfRows rows, Sayable rule.1 rule.2)
    (hproductive : ∀ r ∈ rows, r.lhs ≠ "" → r.bodies ≠ []) :
    ∃ current, (Grammar.rulesOfRows rows).foldl Draft.produce {} =
      ⟨restated rows, current, []⟩ := by
  induction rows using List.reverseRecOn with
  | nil => exact ⟨none, rfl⟩
  | append_singleton rows r ih =>
    by_cases hr : r.lhs = ""
    · have hrules : Grammar.rulesOfRows (rows ++ [r]) = Grammar.rulesOfRows rows := by
        simp [Grammar.rulesOfRows, List.filter_append, hr]
      have hsides : Grammar.leftSides (rows ++ [r]) = Grammar.leftSides rows := by
        rw [Grammar.leftSides_append, if_pos hr, List.append_nil]
      have hrestated : restated (rows ++ [r]) = restated rows := by
        simp [restated, List.filter_append, hr]
      rw [hrules] at hsay ⊢
      rw [hsides] at hdistinct
      rw [hrestated]
      exact ih hdistinct hsay fun s hs => hproductive s (List.mem_append_left _ hs)
    · have hrules : Grammar.rulesOfRows (rows ++ [r]) =
          Grammar.rulesOfRows rows ++ r.bodies.map (r.lhs, ·) := by
        simp [Grammar.rulesOfRows, List.filter_append, hr]
      rw [Grammar.leftSides_append, if_neg hr, List.nodup_append] at hdistinct
      obtain ⟨current, hbefore⟩ := ih hdistinct.1
        (fun rule hrule => hsay rule (hrules ▸ List.mem_append_left _ hrule))
        fun s hs => hproductive s (List.mem_append_left _ hs)
      have hlefts : (restated rows).map Row.left = Grammar.leftSides rows := by
        rw [map_restated Row.left Row.lhs rows fun _ _ _ _ => rfl, Grammar.leftSides_eq_map]
      have hold : ∀ s ∈ restated rows, s.left ≠ r.lhs := fun s hs =>
        hdistinct.2.2 s.left (hlefts ▸ List.mem_map_of_mem hs) r.lhs (List.mem_singleton_self _)
      have hbodies : ∀ rhs ∈ r.bodies, Sayable r.lhs rhs := fun rhs hrhs =>
        hsay (r.lhs, rhs) (hrules ▸ List.mem_append_right _ (List.mem_map_of_mem hrhs))
      rw [hrules, List.foldl_append, hbefore, Draft.foldl_produce_of_new hold hbodies
        (hproductive r (by simp) hr), restated_append hr]
      exact ⟨_, rfl⟩

/-- **A script of rules is read rule by rule.** -/
theorem read_intercalate {rules : List (Symbol × List Symbol)}
    (hsay : ∀ rule ∈ rules, Sayable rule.1 rule.2) :
    read ("\n".intercalate (rules.map fun rule => Production.arrow rule.1 rule.2)) =
      rules.foldl Draft.produce {} := by
  set texts := rules.map fun rule => Production.arrow rule.1 rule.2 with htexts
  have hof : ∀ s ∈ texts, ∃ rule ∈ rules, Production.arrow rule.1 rule.2 = s := fun s hs =>
    List.mem_map.mp hs
  have hplain : ∀ s ∈ texts, Comment.IsPlain s.toList ∧ '\n' ∉ s.toList ∧
      Text.strip s = s ∧ s ≠ "" := by
    intro s hs
    obtain ⟨rule, hrule, rfl⟩ := hof s hs
    have h := hsay rule hrule
    exact ⟨h.isPlain_arrow, h.break_notMem_arrow, h.strip_arrow, Sayable.arrow_ne _ _⟩
  have hchars : ("\n".intercalate texts).toList = ['\n'].intercalate (texts.map String.toList) := by
    simp [String.toList_intercalate]
  have hcomment : ¬Comment.HasComment ("\n".intercalate texts).toList := by
    rw [hchars]
    refine (Comment.isPlain_intercalate (by decide) (by decide) ?_).not_hasComment
    exact List.forall_mem_map.mpr fun s hs => (hplain s hs).1
  have hcleaned : cleaned ("\n".intercalate texts) = texts := by
    rw [cleaned, Comment.lines_intercalate hcomment fun s hs => (hplain s hs).2.1,
      Comment.map_snd_numbered, List.map_congr_left fun s hs => (hplain s hs).2.2.1, List.map_id',
      List.filter_eq_self]
    exact fun s hs => decide_eq_true (hplain s hs).2.2.2
  have hproduction : ∀ s ∈ texts, ∃ A rest, IsProductionLine s A rest := by
    intro s hs
    obtain ⟨rule, hrule, rfl⟩ := hof s hs
    exact ⟨_, _, (hsay rule hrule).isProductionLine_arrow⟩
  have hregular : AreRegular texts :=
    ⟨fun s hs => Or.inl (hproduction s hs), fun s hs => hproduction s (List.mem_of_mem_head? hs)⟩
  rw [read_eq_readAll (by rwa [hcleaned]), hcleaned, Draft.readAll, htexts, List.foldl_map]
  exact List.foldl_ext _ _ _ fun d rule hrule => Draft.read_arrow (hsay rule hrule) d 0

end Script

namespace Grammar

variable {rows : List Row} {g : Grammar} {r : Row}

/-! ### The restated rows -/

/-- The right-hand sides of a row that are not empty, in their order. -/
theorem filter_bodies (r : Row) :
    r.bodies.filter (· ≠ []) = (r.right.filter Row.offers).map Text.lexemesOf := by
  have hempty : (if r.hasEpsilon then [([] : List Symbol)] else []).filter (· ≠ []) = [] := by
    split <;> simp
  rw [Row.bodies, List.filter_append, hempty, List.nil_append, List.filter_eq_self]
  intro body hbody
  obtain ⟨alternative, halt, rfl⟩ := List.mem_map.mp hbody
  rw [decide_eq_true_eq, ne_eq, lexemesOf_eq_nil_iff, (List.mem_filter.mp halt).2]
  simp

theorem nil_mem_bodies (r : Row) : [] ∈ r.bodies ↔ r.hasEpsilon = true := by
  have hright : [] ∉ (r.right.filter Row.offers).map Text.lexemesOf := by
    rw [← filter_bodies]
    simp
  rw [Row.bodies, List.mem_append, or_iff_left hright]
  cases r.hasEpsilon <;> simp

/-- **The row that lists the right-hand sides of a row gives them back.** -/
theorem bodies_rowOfBodies (id : String) (A : Symbol) (r : Row) :
    (Script.rowOfBodies id A r.bodies).bodies = r.bodies := by
  have hoffers : ∀ body ∈ r.bodies.filter (· ≠ []), Row.offers (" ".intercalate body) = true ∧
      Text.lexemesOf (" ".intercalate body) = body := by
    intro body hbody
    obtain ⟨hmem, hne⟩ := List.mem_filter.mp hbody
    have hcut := Text.lexemesOf_intercalate fun x hx => isLexeme_of_mem_bodies hmem hx
    refine ⟨?_, hcut⟩
    rw [← Bool.not_eq_false, ← lexemesOf_eq_nil_iff, hcut]
    exact of_decide_eq_true hne
  have hright : ((Script.rowOfBodies id A r.bodies).right.filter Row.offers).map Text.lexemesOf =
      r.bodies.filter (· ≠ []) := by
    rw [Script.rowOfBodies, List.filter_eq_self.mpr (List.forall_mem_map.mpr fun body hbody =>
      (hoffers body hbody).1), List.map_map]
    exact (List.map_congr_left fun body hbody => (hoffers body hbody).2).trans (List.map_id _)
  have hepsilon : (Script.rowOfBodies id A r.bodies).hasEpsilon = r.hasEpsilon := by
    change decide ([] ∈ r.bodies) = r.hasEpsilon
    simp only [nil_mem_bodies, Bool.decide_eq_true]
  rw [Row.bodies, hright, filter_bodies, hepsilon]
  rfl

theorem lhs_rowOfBodies (id : String) (bodies : List (List Symbol))
    (hblank : ∀ c ∈ r.lhs.toList, Text.isBlank c = false) :
    (Script.rowOfBodies id r.lhs bodies).lhs = r.lhs :=
  Text.strip_eq_self_of_forall hblank

/-- Rows without problems determine the grammar by the first left-hand side, the left-hand sides
and the rules. -/
theorem ofRows_congr {rows' : List Row} (hrows : problemsOfRows rows = [])
    (hrows' : problemsOfRows rows' = [])
    (hfirst : rows'.head?.map Row.lhs = rows.head?.map Row.lhs)
    (hsides : leftSides rows' = leftSides rows) (hrules : rulesOfRows rows' = rulesOfRows rows) :
    ofRows rows' = ofRows rows := by
  rw [ofRows, ofRows, hrows, hrows', hfirst, hsides, hrules]

section Restated

variable (hrows : Admissible rows)
include hrows

theorem leftSides_restated : leftSides (Script.restated rows) = leftSides rows := by
  have hmap := Script.map_restated Row.lhs Row.lhs rows fun id r hr _ =>
    lhs_rowOfBodies id r.bodies (hrows.unspaced r hr)
  rw [leftSides, hmap, ← leftSides_eq_map, leftSides, List.filter_filter]
  simp only [Bool.and_self]

theorem head?_restated :
    (Script.restated rows).head?.map Row.lhs = rows.head?.map Row.lhs := by
  have hmap := Script.map_restated Row.lhs Row.lhs rows fun id r hr _ =>
    lhs_rowOfBodies id r.bodies (hrows.unspaced r hr)
  obtain ⟨r, rest, rfl, hr⟩ := hrows.first
  rw [← List.head?_map, hmap, List.filter_cons_of_pos (by simpa using hr)]
  rfl

theorem lhs_ne_of_mem_restated : ∀ r ∈ Script.restated rows, r.lhs ≠ "" := by
  intro r hr
  have hmap := Script.map_restated Row.lhs Row.lhs rows fun id r hr _ =>
    lhs_rowOfBodies id r.bodies (hrows.unspaced r hr)
  have hmem : r.lhs ∈ (rows.filter (·.lhs ≠ "")).map Row.lhs := hmap ▸ List.mem_map_of_mem hr
  obtain ⟨s, hs, heq⟩ := List.mem_map.mp hmem
  rw [← heq]
  exact of_decide_eq_true (List.mem_filter.mp hs).2

theorem rulesOfRows_restated : rulesOfRows (Script.restated rows) = rulesOfRows rows := by
  have hmap := Script.map_restated (fun r => r.bodies.map fun body => (r.lhs, body))
    (fun r => r.bodies.map fun body => (r.lhs, body)) rows fun id r hr _ => by
      rw [bodies_rowOfBodies, lhs_rowOfBodies id r.bodies (hrows.unspaced r hr)]
  have hall : (Script.restated rows).filter (·.lhs ≠ "") = Script.restated rows :=
    List.filter_eq_self.mpr fun r hr => by simpa using lhs_ne_of_mem_restated hrows r hr
  rw [rulesOfRows, hall, List.flatMap_def, hmap, rulesOfRows, List.flatMap_def]

/-- **The restated rows are admissible**, too. -/
theorem admissible_restated : Admissible (Script.restated rows) := by
  have hrestated : ∀ r ∈ Script.restated rows, ∃ s ∈ rows, s.lhs ≠ "" ∧
      ∃ id, r = Script.rowOfBodies id s.lhs s.bodies := by
    intro r hr
    obtain ⟨⟨s, k⟩, hs, rfl⟩ := List.mem_map.mp hr
    obtain ⟨hs, hne⟩ := List.mem_filter.mp (List.fst_mem_of_mem_zipIdx hs)
    exact ⟨s, hs, of_decide_eq_true hne, _, rfl⟩
  have hhead := head?_restated hrows
  constructor
  · obtain ⟨r, rest, rfl, hr⟩ := hrows.first
    obtain ⟨s, later, hlist⟩ : ∃ s later, Script.restated (r :: rest) = s :: later :=
      ⟨_, _, by rw [Script.restated, List.filter_cons_of_pos (by simpa using hr)]; rfl⟩
    exact ⟨s, later, hlist, lhs_ne_of_mem_restated hrows s (hlist ▸ List.mem_cons_self)⟩
  · exact fun r hr hempty => absurd hempty (lhs_ne_of_mem_restated hrows r hr)
  · intro r hr
    obtain ⟨s, hs, -, id, rfl⟩ := hrestated r hr
    rw [lhs_rowOfBodies id s.bodies (hrows.unspaced s hs)]
    exact hrows.unspaced s hs
  · rw [leftSides_restated hrows]
    exact hrows.distinct
  · intro r hr hne alternative halt
    obtain ⟨s, hs, hsne, id, rfl⟩ := hrestated r hr
    obtain ⟨body, hbody, rfl⟩ := List.mem_map.mp halt
    have hmem := (List.mem_filter.mp hbody).1
    rw [filter_bodies] at hbody
    obtain ⟨source, hsource, heq⟩ := List.mem_map.mp hbody
    rw [← endMarker_mem_lexemesOf, Text.lexemesOf_intercalate fun x hx =>
      isLexeme_of_mem_bodies hmem hx, ← heq, endMarker_mem_lexemesOf]
    exact hrows.unreserved s hs hsne source (List.mem_filter.mp hsource).1
  · rw [← rulesOfRows_ne_nil, rulesOfRows_restated hrows]
    exact rulesOfRows_ne_nil.mpr hrows.productive

end Restated

/-! ### Printing and reading back -/

/-- **A grammar as a script**: one line for each production, in their order. -/
def printed (g : Grammar) : String :=
  "\n".intercalate (g.productions.map Production.text)

/-- **A grammar that a script can describe**: the non-terminals are names and have productions, and
no right-hand side holds a bar or two slashes in a row or spells the empty word. -/
structure Printable (g : Grammar) : Prop where
  /-- Every non-terminal is a name. -/
  named : ∀ A ∈ g.nonTerminals, Script.IsName A
  /-- Every non-terminal has a production. -/
  productive : ∀ A ∈ g.nonTerminals, ∃ p ∈ g.productions, p.lhs = A
  /-- No right-hand side holds the bar. -/
  unbarred : ∀ p ∈ g.productions, "|" ∉ p.rhs
  /-- No symbol of a right-hand side holds two slashes in a row. -/
  uncommented : ∀ p ∈ g.productions, ∀ x ∈ p.rhs, ¬['/', '/'] <:+: x.toList
  /-- No right-hand side spells the empty word. -/
  unspelled : ∀ p ∈ g.productions, ∀ x ∈ Script.emptySpellings, p.rhs ≠ [x]

theorem map_text_number (rules : List (Symbol × List Symbol)) :
    (number rules).map Production.text =
      rules.map fun rule => Production.arrow rule.1 rule.2 := by
  rw [number, List.map_map]
  refine (List.map_congr_left fun e _ => Production.text_of_authored rfl).trans ?_
  change List.map ((fun rule : Symbol × List Symbol => Production.arrow rule.1 rule.2) ∘ Prod.fst)
    _ = _
  rw [← List.map_map, List.zipIdx_map_fst]

/-- Every rule is numbered. -/
theorem exists_mem_number {rules : List (Symbol × List Symbol)} {rule : Symbol × List Symbol}
    (h : rule ∈ rules) : ∃ p ∈ number rules, p.lhs = rule.1 ∧ p.rhs = rule.2 := by
  obtain ⟨k, hk⟩ := List.mem_iff_getElem?.mp h
  have hnumbered : (rule, k) ∈ rules.zipIdx := List.mem_zipIdx_iff_getElem?.mpr hk
  exact ⟨_, List.mem_map_of_mem hnumbered, rfl, rfl⟩

theorem Printable.sayable (h : g.Printable) (hg : ofRows rows = .ok g) :
    ∀ rule ∈ rulesOfRows rows, Script.Sayable rule.1 rule.2 := by
  obtain ⟨hrows, -, hnon, -, hproductions⟩ := ofRows_eq_ok hg
  rintro ⟨A, rhs⟩ hrule
  obtain ⟨p, hp, rfl, rfl⟩ := exists_mem_number hrule
  rw [← hproductions] at hp
  obtain ⟨r, hr, hne, hlhs, hbody⟩ := mem_rulesOfRows.mp hrule
  have hA : p.lhs ∈ g.nonTerminals := by
    rw [hnon, SymbolSet.mem_ofList, mem_leftSides, ← hlhs]
    exact ⟨hne, r, hr, rfl⟩
  exact {
    named := h.named _ hA
    unspaced := hlhs ▸ (problemsOfRows_eq_nil_iff.mp hrows).unspaced r hr
    lexeme := fun x hx => isLexeme_of_mem_bodies hbody hx
    unbarred := h.unbarred p hp
    uncommented := h.uncommented p hp
    unspelled := h.unspelled p hp }

/-- Where every non-terminal has a production, every row with a left-hand side has a right-hand
side. -/
theorem Printable.bodies_ne (h : g.Printable) (hg : ofRows rows = .ok g) :
    ∀ r ∈ rows, r.lhs ≠ "" → r.bodies ≠ [] := by
  intro r hr hne
  obtain ⟨hrows, -, hnon, -, hproductions⟩ := ofRows_eq_ok hg
  have hmem : r.lhs ∈ leftSides rows := mem_leftSides.mpr ⟨hne, r, hr, rfl⟩
  obtain ⟨p, hp, hlhs⟩ := h.productive r.lhs (by rwa [hnon, SymbolSet.mem_ofList])
  obtain ⟨s, hs, -, heq, hbody⟩ :=
    mem_rulesOfRows.mp (exists_of_mem_number (hproductions ▸ hp))
  obtain rfl := (problemsOfRows_eq_nil_iff.mp hrows).eq_of_lhs_eq hs hr hne (heq.trans hlhs)
  exact List.ne_nil_of_mem hbody

/-- **Printing a grammar and reading it back is the identity**, for every grammar built from rows
that a script can describe. -/
theorem ofScript_printed (hg : ofRows rows = .ok g) (h : g.Printable) :
    ofScript g.printed = .ok g := by
  obtain ⟨hproblems, -, -, -, hproductions⟩ := ofRows_eq_ok hg
  have hrows : Admissible rows := problemsOfRows_eq_nil_iff.mp hproblems
  have hread : Script.read g.printed = (rulesOfRows rows).foldl Script.Draft.produce {} := by
    rw [printed, hproductions, map_text_number]
    exact Script.read_intercalate (h.sayable hg)
  obtain ⟨current, hdraft⟩ :=
    Script.exists_foldl_produce hrows.distinct (h.sayable hg) (h.bodies_ne hg)
  have hrestated : Script.rows g.printed = .ok (Script.restated rows) := by
    rw [Script.rows, hread, hdraft]
  have hsame := ofRows_congr hproblems
    (problemsOfRows_eq_nil_iff.mpr (admissible_restated hrows)) (head?_restated hrows)
    (leftSides_restated hrows) (rulesOfRows_restated hrows)
  rw [ofScript, hrestated]
  exact hsame.trans hg

/-- Rows whose symbols hold a slash, an apostrophe and an arrow, and one row that says nothing. -/
def slashRows : List Row :=
  [⟨"1", "expr", ["a / expr' b", "( expr)"], false⟩, ⟨"7", " ", [], false⟩,
    ⟨"2", " expr' ", ["->  ε"], true⟩]

/-- The grammar that these rows describe. -/
def slashes : Grammar where
  start := "expr"
  nonTerminals := .ofList ["expr", "expr'"]
  terminals := .ofList ["(", ")", "->", "/", "a", "b", "ε"]
  productions := [⟨0, "expr", ["a", "/", "expr'", "b"], "expr -> a / expr' b"⟩,
    ⟨1, "expr", ["(", "expr", ")"], "expr -> ( expr )"⟩, ⟨2, "expr'", [], "expr' -> ε"⟩,
    ⟨3, "expr'", ["->", "ε"], "expr' -> -> ε"⟩]

theorem ofScript_printed_slashes : slashes.Printable ∧
    ofScript "expr -> a / expr' b\nexpr -> ( expr )\nexpr' -> ε\nexpr' -> -> ε" =
      .ok slashes := by
  have hrows : ofRows slashRows = .ok slashes := by decide +kernel
  have hprintable : slashes.Printable := by
    constructor
    · have hnon : ∀ A ∈ slashes.nonTerminals, A = "expr" ∨ A = "expr'" := by decide
      intro A hA
      rcases hnon A hA with rfl | rfl
      · exact ⟨'e', "xpr".toList, by decide +kernel, by decide,
          List.all_eq_true.mp (by decide +kernel)⟩
      · exact ⟨'e', "xpr'".toList, by decide +kernel, by decide,
          List.all_eq_true.mp (by decide +kernel)⟩
    · have hproductive : ∀ A ∈ slashes.nonTerminals.toList,
          ∃ p ∈ slashes.productions, p.lhs = A := by decide
      exact hproductive
    all_goals decide
  have hprinted : slashes.printed =
      "expr -> a / expr' b\nexpr -> ( expr )\nexpr' -> ε\nexpr' -> -> ε" := by decide +kernel
  exact ⟨hprintable, hprinted ▸ ofScript_printed hrows hprintable⟩

end Grammar

end ShiftReduce

import Mathlib.Data.List.Chain
import ShiftReduce.Grammar.Comment
import ShiftReduce.Proofs.Text.Blank

/-!
# Texts without comments

A comment begins with two slashes, or with a slash and a star that have a star and a slash somewhere
behind them (`ShiftReduce.Comment.HasComment`); taking out the comments leaves any other text as it
is (`ShiftReduce.Comment.strip_eq_self`). So the lines of a script that is put together from lines
and holds no comment are these lines, numbered from one, without the blanks at their ends and
without the blank ones (`ShiftReduce.Comment.lines_intercalate`). In general they are the lines of
the text without comments (`ShiftReduce.Comment.map_snd_lines`).

Only slashes and stars are looked at (`ShiftReduce.Comment.hasComment_map_iff`). A text in which no
slash has a slash or a star behind it is *plain* (`ShiftReduce.Comment.IsPlain`). Plain texts can be
put together without giving rise to a comment (`ShiftReduce.Comment.isPlain_intercalate`).
-/

namespace ShiftReduce.Comment

/-- **A text with a comment**: two slashes side by side, or a slash and a star side by side and a
star and a slash side by side somewhere behind them. -/
def HasComment (s : List Char) : Prop :=
  ['/', '/'] <:+: s ∨
    ∃ before behind, s = before ++ '/' :: '*' :: behind ∧ ['*', '/'] <:+: behind

/-- **A plain text**: no slash has a slash or a star behind it. -/
def IsPlain (s : List Char) : Prop :=
  s.IsChain fun a b => a = '/' → b ≠ '/' ∧ b ≠ '*'

variable {s t : List Char}

/-! ### Texts that are left as they are -/

theorem closes_iff : closes s = true ↔ ['*', '/'] <:+: s := by
  fun_induction closes s with
  | case1 rest => exact iff_of_true rfl ⟨[], rest, rfl⟩
  | case2 c rest hopen ih =>
    rw [ih, List.infix_cons_iff, or_iff_right]
    rintro ⟨behind, hlist⟩
    obtain ⟨rfl, hrest⟩ := List.cons.inj hlist
    exact hopen behind rfl hrest.symm
  | case3 => simp

/-- Without a slash there is no comment. -/
theorem HasComment.slash_mem (h : HasComment s) : '/' ∈ s := by
  rcases h with hline | ⟨before, behind, rfl, -⟩
  · exact hline.subset List.mem_cons_self
  · simp

theorem HasComment.mono (h : HasComment s) (hst : s <:+: t) : HasComment t := by
  rcases h with hline | ⟨before, behind, rfl, hcloses⟩
  · exact Or.inl (hline.trans hst)
  · obtain ⟨first, last, rfl⟩ := hst
    refine Or.inr ⟨first ++ before, behind ++ last, by simp, ?_⟩
    exact hcloses.trans (List.infix_append' [] behind last)

theorem dropBlocks_eq_self (h : ¬HasComment s) : dropBlocks false s = s := by
  induction s with
  | nil => rfl
  | cons c s ih =>
    have hs := ih fun hs => h (hs.mono (List.suffix_cons c s).isInfix)
    by_cases hopen : ∃ rest, c = '/' ∧ s = '*' :: rest
    · obtain ⟨rest, rfl, rfl⟩ := hopen
      have hcloses : closes rest = false := by
        rw [← Bool.not_eq_true, closes_iff]
        exact fun hcloses => h (Or.inr ⟨[], rest, rfl, hcloses⟩)
      have hrest : dropBlocks false rest = rest := by
        rw [dropBlocks] at hs
        · exact (List.cons.inj hs).2
        · intro behind hstar
          exact absurd hstar (by decide)
      rw [dropBlocks, hcloses, if_neg (by simp), hrest]
    · rw [dropBlocks, hs]
      rintro rest rfl rfl
      exact hopen ⟨rest, rfl, rfl⟩

theorem dropLines_eq_self (h : ¬HasComment s) : dropLines false s = s := by
  induction s with
  | nil => rfl
  | cons c s ih =>
    have hs := ih fun hs => h (hs.mono (List.suffix_cons c s).isInfix)
    have hopen : ∀ rest, c = '/' → s = '/' :: rest → False := by
      rintro rest rfl rfl
      exact h (Or.inl ⟨[], rest, rfl⟩)
    by_cases hc : c = '\n'
    · rw [hc, dropLines, hs]
    · rw [dropLines, hs]
      · rfl
      · exact hc
      · exact hopen

/-- **Taking out the comments leaves a text without any as it is.** -/
theorem strip_eq_self (h : ¬HasComment s) : strip s = s := by
  rw [strip, dropBlocks_eq_self h, dropLines_eq_self h]

/-- **Only slashes and stars are looked at.** -/
theorem hasComment_map_iff {f : Char → Char} (hslash : ∀ c, f c = '/' ↔ c = '/')
    (hstar : ∀ c, f c = '*' ↔ c = '*') : HasComment (s.map f) ↔ HasComment s := by
  have hpair : ∀ {a b : Char} {l : List Char}, (∀ c, f c = a ↔ c = a) → (∀ c, f c = b ↔ c = b) →
      ([a, b] <:+: l.map f ↔ [a, b] <:+: l) := by
    intro a b l ha hb
    constructor
    · rintro ⟨before, behind, hl⟩
      obtain ⟨front, behind', hl', hfront, -⟩ := List.map_eq_append_iff.mp hl.symm
      obtain ⟨before', pair, hfront', -, hpair⟩ := List.map_eq_append_iff.mp hfront
      obtain ⟨c, d, rfl⟩ : ∃ c d, pair = [c, d] :=
        List.length_eq_two.mp (by simpa using congrArg List.length hpair)
      obtain ⟨hc, hd⟩ : f c = a ∧ f d = b := by simpa using hpair
      rw [ha] at hc
      rw [hb] at hd
      exact ⟨before', behind', by rw [hl', hfront', hc, hd]⟩
    · intro h
      have hmap := h.map f
      rwa [List.map_cons, List.map_singleton, (ha a).mpr rfl, (hb b).mpr rfl] at hmap
  constructor
  · rintro (hline | ⟨before, behind, hs, hcloses⟩)
    · exact Or.inl ((hpair hslash hslash).mp hline)
    · obtain ⟨before', opened, rfl, -, hopened⟩ := List.map_eq_append_iff.mp hs
      obtain ⟨c, starred, rfl, hc, hstarred⟩ := List.map_eq_cons_iff.mp hopened
      obtain ⟨d, behind', rfl, hd, rfl⟩ := List.map_eq_cons_iff.mp hstarred
      rw [hslash] at hc
      rw [hstar] at hd
      exact Or.inr ⟨before', behind', by rw [hc, hd], (hpair hstar hslash).mp hcloses⟩
  · rintro (hline | ⟨before, behind, rfl, hcloses⟩)
    · exact Or.inl ((hpair hslash hslash).mpr hline)
    · refine Or.inr ⟨before.map f, behind.map f, ?_, (hpair hstar hslash).mpr hcloses⟩
      simp [(hslash '/').mpr rfl, (hstar '*').mpr rfl]

/-! ### Plain texts -/

/-- A text is plain if neither two slashes nor a slash and a star stand in it. -/
theorem isPlain_iff : IsPlain s ↔ ¬['/', '/'] <:+: s ∧ ¬['/', '*'] <:+: s := by
  rw [IsPlain, List.isChain_iff_forall_rel_of_append_cons_cons]
  constructor
  · intro h
    refine ⟨?_, ?_⟩
    · rintro ⟨before, behind, rfl⟩
      exact (@h '/' '/' before behind (by simp) rfl).1 rfl
    · rintro ⟨before, behind, rfl⟩
      exact (@h '/' '*' before behind (by simp) rfl).2 rfl
  · rintro ⟨hline, hblock⟩ a b before behind rfl rfl
    exact ⟨fun hb => hline ⟨before, behind, by simp [hb]⟩,
      fun hb => hblock ⟨before, behind, by simp [hb]⟩⟩

/-- A text without slashes may stand in front of a plain one. -/
theorem IsPlain.append_left (ht : IsPlain t) (hs : '/' ∉ s) : IsPlain (s ++ t) := by
  induction s with
  | nil => exact ht
  | cons c s ih =>
    rw [List.mem_cons, not_or] at hs
    exact List.isChain_cons.mpr ⟨fun _ _ hslash => absurd hslash.symm hs.1, ih hs.2⟩

/-- **A plain text holds no comment.** -/
theorem IsPlain.not_hasComment (h : IsPlain s) : ¬HasComment s := by
  obtain ⟨hline, hblock⟩ := isPlain_iff.mp h
  rintro (hslashes | ⟨before, behind, rfl, -⟩)
  · exact hline hslashes
  · exact hblock ⟨before, behind, by simp⟩

/-- Plain texts stay plain when they are joined by a character that belongs to no comment. -/
theorem isPlain_intercalate {c : Char} (hslash : c ≠ '/') (hstar : c ≠ '*')
    {l : List (List Char)} (h : ∀ s ∈ l, IsPlain s) : IsPlain ([c].intercalate l) := by
  induction l with
  | nil => exact List.isChain_nil
  | cons s l ih =>
    obtain ⟨hs, hl⟩ := List.forall_mem_cons.mp h
    rcases l with _ | ⟨t, l⟩
    · simpa [List.intercalate] using hs
    · have hjoin : [c].intercalate (s :: t :: l) = s ++ ([c] ++ [c].intercalate (t :: l)) := by
        rw [List.intercalate_cons_cons, List.append_assoc]
      rw [hjoin, IsPlain, List.isChain_append]
      refine ⟨hs, ?_, fun a _ b hb _ => ?_⟩
      · exact (List.isChain_cons.mpr ⟨fun b _ hc => absurd hc hslash, ih hl⟩)
      · obtain rfl : c = b := by simpa using hb
        exact ⟨hslash, hstar⟩

/-! ### The lines of a text -/

/-- What is left of a line: the line without the blanks at its ends, unless it is blank. -/
def kept (line : List Char) : List String :=
  if Text.trim line = [] then [] else [String.ofList (Text.trim line)]

/-- **The lines of a text**, without their numbers, are what is left of the lines of the text
without comments. -/
theorem map_snd_lines (text : String) :
    (lines text).map Prod.snd = ((strip text.toList).splitOn '\n').flatMap kept := by
  set raw := (strip text.toList).splitOn '\n' with hraw
  set left : String → Option String := fun line =>
    if Text.strip line = "" then none else some (Text.strip line) with hleft
  have hkept : ∀ line ∈ raw, ((left ∘ String.ofList) line).toList = kept line := by
    intro line _
    by_cases h : Text.trim line = [] <;> simp [hleft, kept, h, Text.strip]
  calc (lines text).map Prod.snd
      = ((raw.map String.ofList).zipIdx 1).filterMap (left ∘ Prod.fst) := by
        rw [lines, List.map_filterMap, Text.pieces, String.toList_ofList]
        refine List.filterMap_congr ?_
        rintro ⟨line, number⟩ -
        by_cases h : Text.strip line = "" <;> simp [hleft, h]
    _ = (raw.map String.ofList).filterMap left := by
        rw [← List.filterMap_map, List.zipIdx_map_fst]
    _ = raw.flatMap kept := by
        rw [List.filterMap_map, List.filterMap_eq_flatMap_toList]
        exact List.flatMap_congr hkept

/-- **Lines with their numbers**, counted from the given one: those that are not blank, without the
blanks at their ends. -/
def numbered (first : ℕ) (l : List String) : List (ℕ × String) :=
  (l.zipIdx first).filterMap fun e =>
    if Text.strip e.1 = "" then none else some (e.2, Text.strip e.1)

theorem numbered_nil (first : ℕ) : numbered first [] = [] := rfl

theorem numbered_append (first : ℕ) (l more : List String) :
    numbered first (l ++ more) = numbered first l ++ numbered (first + l.length) more := by
  simp [numbered, List.zipIdx_append]

theorem numbered_cons {first : ℕ} {line : String} {l : List String} (h : Text.strip line ≠ "") :
    numbered first (line :: l) = (first, Text.strip line) :: numbered (first + 1) l := by
  simp [numbered, h]

/-- The lines do not depend on their numbers. -/
theorem map_snd_numbered (first : ℕ) (l : List String) :
    (numbered first l).map Prod.snd = (l.map Text.strip).filter (· ≠ "") := by
  induction l generalizing first with
  | nil => rfl
  | cons line l ih =>
    by_cases h : Text.strip line = ""
    · have hskip : numbered first (line :: l) = numbered (first + 1) l := by simp [numbered, h]
      rw [hskip, ih, List.map_cons, List.filter_cons_of_neg (by simpa)]
    · rw [numbered_cons h, List.map_cons, ih, List.map_cons, List.filter_cons_of_pos (by simpa)]

/-- **The lines of a script that is put together from lines** and holds no comment are these lines,
numbered from one. -/
theorem lines_intercalate {l : List String} (hcomment : ¬HasComment ("\n".intercalate l).toList)
    (hbreak : ∀ s ∈ l, '\n' ∉ s.toList) : lines ("\n".intercalate l) = numbered 1 l := by
  by_cases hl : l = []
  · subst hl
    decide
  have hchars : ("\n".intercalate l).toList = ['\n'].intercalate (l.map String.toList) := by
    simp [String.toList_intercalate]
  have hpieces : Text.pieces '\n' ("\n".intercalate l) = l := by
    rw [Text.pieces, hchars, List.splitOn_intercalate '\n' (by simpa using hbreak)
      (by simpa using hl), List.map_map]
    simp [Function.comp_def]
  rw [lines, strip_eq_self hcomment, String.ofList_toList, hpieces]
  rfl

end ShiftReduce.Comment

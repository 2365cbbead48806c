import ShiftReduce.Proofs.Grammar.LineComment
import ShiftReduce.Proofs.Grammar.Orphan

/-!
# Where the characters come from that comments leave

Which characters of a text stay when the comments are taken out can be said character by character
(`ShiftReduce.Comment.staysBlocks`, `ShiftReduce.Comment.staysLines`), and then anything that the
characters are marked with can be followed (`ShiftReduce.Comment.leave`). Followed are the places of
the characters: those of the *survivors* (`ShiftReduce.Comment.survivors`). And followed are the
numbers of their lines: what is left is numbered as it stands
(`ShiftReduce.Comment.leave_lineNumbers`), so every survivor is still on its line
(`ShiftReduce.Comment.keepsLines_strip`).

What does not stay are the comments. A text can be cut into its block comments and the stretches
between them (`ShiftReduce.Comment.IsCut`, `ShiftReduce.Comment.exists_isCut`), and of the comments
nothing stays but their line breaks (`ShiftReduce.Comment.staysBlocks_of_isCut`). Of a line of what
is left, everything stays up to the first two slashes and nothing from there on
(`ShiftReduce.Comment.staysLines_comment`, `ShiftReduce.Comment.staysLines_of_not_infix`).

A line of what is left then has the number of the line on which its first character that is no blank
was written (`ShiftReduce.Comment.lines_eq_map_leftLines`), and an orphan is reported with this
number (`ShiftReduce.Script.comments_keep_lines`).
-/

namespace ShiftReduce.Comment

variable {α β : Type}

/-! ### What stays -/

/-- Which characters stay when the block comments are taken out. Of an open comment, the line breaks
stay. -/
def staysBlocks : (inside : Bool) → List Char → List Bool
  | true, '*' :: '/' :: rest => false :: false :: staysBlocks false rest
  | true, c :: rest => decide (c = '\n') :: staysBlocks true rest
  | false, '/' :: '*' :: rest =>
    if closes rest then false :: false :: staysBlocks true rest
    else true :: true :: staysBlocks false rest
  | false, _ :: rest => true :: staysBlocks false rest
  | _, [] => []

/-- Which characters stay when the line comments are taken out. -/
def staysLines (inside : Bool) : List Char → List Bool
  | [] => []
  | '\n' :: rest => true :: staysLines false rest
  | '/' :: '/' :: rest => false :: false :: staysLines true rest
  | _ :: rest => if inside then false :: staysLines true rest else true :: staysLines false rest

/-- Those members of a list that stay. -/
def select : List Bool → List α → List α
  | true :: stays, a :: l => a :: select stays l
  | false :: stays, _ :: l => select stays l
  | _, _ => []

/-- What taking the comments out of a text leaves of a list that runs along the text. -/
def leave (s : List Char) (l : List α) : List α :=
  select (staysLines false (dropBlocks false s)) (select (staysBlocks false s) l)

/-- **The survivors**: the places of the characters that are left of a text without its comments. -/
def survivors (s : List Char) : List ℕ :=
  leave s (List.range s.length)

/-- The number of the line on which a place is, counted from one. -/
def lineOf (s : List Char) (place : ℕ) : ℕ :=
  1 + (s.take place).count '\n'

/-- **A text that was left of another one, with lines kept**: the places from which its characters
come ascend, and each of them is on the line on which the character is now. -/
structure KeepsLines (s t : List Char) (places : List ℕ) : Prop where
  /-- The characters come in their order. -/
  ascending : places.Pairwise (· < ·)
  /-- They are those that stand at these places. -/
  characters : t.map some = places.map (s[·]?)
  /-- They are on the lines on which they were. -/
  lines : ∀ k place, places[k]? = some place → lineOf t k = lineOf s place

/-! ### What does not stay -/

/-- **The block comments of a text**, each with the stretch in front of it, and the stretch behind
the last of them. A comment begins at an opener that has a closer behind it, and goes from the first
opener to the first closer behind that. -/
inductive IsCut : List Char → List (List Char × List Char) → List Char → Prop
  /-- No opener has a closer behind it. -/
  | last {s : List Char} (h : ∀ before behind, s = before ++ '/' :: '*' :: behind →
      ¬['*', '/'] <:+: behind) : IsCut s [] s
  /-- A comment comes first. -/
  | comment {before body behind last : List Char} {cuts : List (List Char × List Char)}
    (hopens : ¬['/', '*'] <:+: before) (hcloses : ¬['*', '/'] <:+: body)
    (h : IsCut behind cuts last) :
    IsCut (before ++ '/' :: '*' :: (body ++ '*' :: '/' :: behind)) ((before, body) :: cuts) last

theorem staysBlocks_of_forall_not_closes {s : List Char}
    (h : ∀ before behind, s = before ++ '/' :: '*' :: behind → ¬['*', '/'] <:+: behind) :
    staysBlocks false s = s.map fun _ => true := by
  generalize hinside : false = inside
  fun_induction staysBlocks inside s with
  | case1 => exact absurd hinside (by simp)
  | case2 => exact absurd hinside (by simp)
  | case3 rest hcloses => exact absurd (closes_iff.mp hcloses) (h [] rest rfl)
  | case4 rest hcloses ih =>
    rw [ih (fun before behind hrest => h ('/' :: '*' :: before) behind (by simp [hrest])) rfl,
      List.map_cons, List.map_cons]
  | case5 c rest _ ih =>
    rw [ih (fun before behind hrest => h (c :: before) behind (by simp [hrest])) rfl, List.map_cons]
  | case6 => rfl

theorem staysBlocks_append_opener {before rest : List Char} (hopens : ¬['/', '*'] <:+: before)
    (hcloses : closes rest = true) : staysBlocks false (before ++ '/' :: '*' :: rest) =
      before.map (fun _ => true) ++ false :: false :: staysBlocks true rest := by
  induction before with
  | nil => simp [staysBlocks, hcloses]
  | cons c before ih =>
    have hrest : ¬['/', '*'] <:+: before := fun h => hopens (pair_infix_cons_iff.mpr (.inr h))
    rw [List.cons_append, staysBlocks, ih hrest, List.map_cons, List.cons_append]
    exact fun l hc => append_ne_of_not_infix hopens (by simp) l hc

theorem staysBlocks_true_append_closer {body : List Char} (hcloses : ¬['*', '/'] <:+: body)
    (behind : List Char) : staysBlocks true (body ++ '*' :: '/' :: behind) =
      body.map (fun c => decide (c = '\n')) ++ false :: false :: staysBlocks false behind := by
  induction body with
  | nil => rfl
  | cons c body ih =>
    have hrest : ¬['*', '/'] <:+: body := fun h => hcloses (pair_infix_cons_iff.mpr (.inr h))
    rw [List.cons_append, staysBlocks, ih hrest, List.map_cons, List.cons_append]
    exact fun l hc => append_ne_of_not_infix hcloses (by simp) l hc

/-- **What does not stay of a text when its block comments are taken out** are the comments, but for
the line breaks in them. -/
theorem staysBlocks_of_isCut {s last : List Char} {cuts : List (List Char × List Char)}
    (h : IsCut s cuts last) : staysBlocks false s =
      (cuts.flatMap fun cut => cut.1.map (fun _ => true) ++ [false, false] ++
        cut.2.map (fun c => decide (c = '\n')) ++ [false, false]) ++ last.map fun _ => true := by
  induction h with
  | last h => exact staysBlocks_of_forall_not_closes h
  | @comment before body behind last cuts hopens hcloses h ih =>
    have hclosed : closes (body ++ '*' :: '/' :: behind) = true :=
      closes_iff.mpr ⟨body, behind, by simp⟩
    rw [staysBlocks_append_opener hopens hclosed, staysBlocks_true_append_closer hcloses, ih]
    simp

/-- One more character in front of a text belongs to the first stretch if no comment begins with
it. -/
theorem IsCut.exists_cons {c : Char} {s last : List Char} {cuts : List (List Char × List Char)}
    (h : IsCut s cuts last) (hpair : ∀ rest, c = '/' → s = '*' :: rest → closes rest = false) :
    ∃ cuts last, IsCut (c :: s) cuts last := by
  cases h with
  | last h =>
    refine ⟨[], c :: s, .last fun before behind hs => ?_⟩
    rcases before with _ | ⟨d, before⟩
    · obtain ⟨rfl, rfl⟩ := List.cons.inj hs
      rw [← closes_iff, hpair _ rfl rfl]
      exact Bool.false_ne_true
    · exact h before behind (List.cons.inj hs).2
  | @comment before body behind last cuts hopens hcloses h =>
    refine ⟨(c :: before, body) :: cuts, last, ?_⟩
    rw [← List.cons_append]
    refine .comment (fun hinfix => ?_) hcloses h
    rcases pair_infix_cons_iff.mp hinfix with ⟨rfl, hstar⟩ | hinfix
    · -- the opener would have a closer behind it: the one of the first comment
      obtain ⟨before, rfl⟩ := List.head?_eq_some_iff.mp hstar
      have hrest := hpair _ rfl rfl
      rw [Bool.eq_false_iff, ne_eq, closes_iff] at hrest
      exact hrest ⟨before ++ '/' :: '*' :: body, behind, by simp⟩
    · exact hopens hinfix

/-- **Every text can be cut** into its block comments and what is between them. -/
theorem exists_isCut (s : List Char) : ∃ cuts last, IsCut s cuts last := by
  -- inside a comment that is closed, what is in front of the closer belongs to its body
  suffices hscan : ∀ inside, (inside = false → ∃ cuts last, IsCut s cuts last) ∧
      (inside = true → closes s = true → ∃ body behind cuts last,
        s = body ++ '*' :: '/' :: behind ∧ ¬['*', '/'] <:+: body ∧ IsCut behind cuts last) from
    (hscan false).1 rfl
  intro inside
  fun_induction staysBlocks inside s with
  | case1 rest ih =>
    obtain ⟨cuts, last, h⟩ := ih.1 rfl
    exact ⟨by simp, fun _ _ => ⟨[], rest, cuts, last, rfl, by simp, h⟩⟩
  | case2 c rest hpair ih =>
    refine ⟨by simp, fun _ hcloses => ?_⟩
    rw [closes] at hcloses
    · obtain ⟨body, behind, cuts, last, rfl, hbody, h⟩ := ih.2 rfl hcloses
      refine ⟨c :: body, behind, cuts, last, rfl, fun hinfix => ?_, h⟩
      rcases pair_infix_cons_iff.mp hinfix with ⟨rfl, hslash⟩ | hinfix
      · obtain ⟨body, rfl⟩ := List.head?_eq_some_iff.mp hslash
        exact hpair _ rfl rfl
      · exact hbody hinfix
    · exact fun l hc hl => hpair l hc hl
  | case3 rest hcloses ih =>
    obtain ⟨body, behind, cuts, last, rfl, hbody, h⟩ := ih.2 rfl hcloses
    have hopens : ¬['/', '*'] <:+: ([] : List Char) := by simp
    exact ⟨fun _ => ⟨([], body) :: cuts, last, .comment hopens hbody h⟩, by simp⟩
  | case4 rest hcloses ih =>
    obtain ⟨cuts, last, h⟩ := ih.1 rfl
    obtain ⟨cuts, last, h⟩ := h.exists_cons (c := '*') fun _ hslash => absurd hslash (by decide)
    refine ⟨fun _ => h.exists_cons fun l _ hl => ?_, fun h => absurd h (by simp)⟩
    obtain rfl := (List.cons.inj hl).2
    exact Bool.eq_false_iff.mpr hcloses
  | case5 c rest hpair ih =>
    obtain ⟨cuts, last, h⟩ := ih.1 rfl
    exact ⟨fun _ => h.exists_cons fun l hc hl => (hpair l hc hl).elim, by simp⟩
  | case6 =>
    exact ⟨fun _ => ⟨[], [], .last (by simp)⟩, fun _ hcloses => absurd hcloses (by decide)⟩

/-- A character inside a line comment does not stay. -/
theorem staysLines_true_cons {c : Char} (hc : c ≠ '\n') (s : List Char) :
    staysLines true (c :: s) = false :: staysLines true s := by
  induction s generalizing c with
  | nil => simp [staysLines]
  | cons d s ih =>
    by_cases hpair : c = '/' ∧ d = '/'
    · obtain ⟨rfl, rfl⟩ := hpair
      rw [staysLines, ih (by decide)]
    · rw [staysLines, if_pos rfl]
      · exact hc
      · intro rest hslash hrest
        exact hpair ⟨hslash, (List.cons.inj hrest).1⟩

theorem staysLines_true_append {body : List Char} (hbody : '\n' ∉ body) (behind : List Char) :
    staysLines true (body ++ behind) = body.map (fun _ => false) ++ staysLines true behind := by
  induction body with
  | nil => rfl
  | cons c body ih =>
    rw [List.mem_cons, not_or] at hbody
    rw [List.cons_append, staysLines_true_cons (Ne.symm hbody.1), ih hbody.2]
    rfl

/-- At the end of a line no line comment is open any more. -/
theorem IsLineEnd.staysLines_eq {behind : List Char} (h : IsLineEnd behind) :
    staysLines true behind = staysLines false behind := by
  rcases h.cases with rfl | ⟨rest, rfl⟩ <;> rfl

/-- A stretch of a line without two slashes stays. -/
theorem staysLines_append {before behind : List Char} (hbreak : '\n' ∉ before)
    (hslashes : ¬['/', '/'] <:+: before)
    (hseam : before.getLast? = some '/' → behind.head? ≠ some '/') :
    staysLines false (before ++ behind) =
      before.map (fun _ => true) ++ staysLines false behind := by
  induction before with
  | nil => rfl
  | cons c before ih =>
    rw [List.mem_cons, not_or] at hbreak
    have hrest : ¬['/', '/'] <:+: before := fun h => hslashes (pair_infix_cons_iff.mpr (.inr h))
    have hpair : ∀ l, c = '/' → before ++ behind ≠ '/' :: l := by
      refine fun l hc => append_ne_of_not_infix hslashes (fun hnil hslash => ?_) l hc
      exact hseam (by rw [hnil, hslash]; rfl)
    rw [List.cons_append, staysLines, if_neg (by simp), ih hbreak.2 hrest, List.map_cons,
      List.cons_append]
    · intro hlast
      refine hseam ?_
      rcases before with _ | ⟨d, before⟩
      · simp at hlast
      · rwa [List.getLast?_cons_cons]
    · exact Ne.symm hbreak.1
    · exact fun l hc hl => hpair l hc hl

/-- **What does not stay of a line when its line comment is taken out** is the comment, which goes
from the first two slashes to the end of the line. -/
theorem staysLines_comment {before body behind : List Char} (hbreak : '\n' ∉ before ++ body)
    (hfirst : ¬['/', '/'] <:+: before ++ ['/']) (hend : IsLineEnd behind) :
    staysLines false (before ++ '/' :: '/' :: (body ++ behind)) =
      before.map (fun _ => true) ++ false :: false :: (body.map (fun _ => false) ++
        staysLines false behind) := by
  rw [List.mem_append, not_or] at hbreak
  rw [pair_infix_append_iff, not_or, not_or] at hfirst
  rw [staysLines_append hbreak.1 hfirst.1, staysLines, staysLines_true_append hbreak.2,
    hend.staysLines_eq]
  exact fun hlast _ => hfirst.2.2 ⟨hlast, rfl⟩

/-- **Of a line without two slashes everything stays.** -/
theorem staysLines_of_not_infix {line behind : List Char} (hbreak : '\n' ∉ line)
    (hslashes : ¬['/', '/'] <:+: line) (hend : IsLineEnd behind) :
    staysLines false (line ++ behind) = line.map (fun _ => true) ++ staysLines false behind := by
  refine staysLines_append hbreak hslashes fun _ hhead => ?_
  exact absurd (hend _ hhead) (by decide)

/-! ### Following what stays -/

theorem select_map (f : α → β) (stays : List Bool) (l : List α) :
    select stays (l.map f) = (select stays l).map f := by
  fun_induction select stays l with
  | case1 stays a l ih => simp [select, ih]
  | case2 stays a l ih => simpa [select] using ih
  | case3 stays l htrue hfalse =>
    rcases stays with _ | ⟨stay, stays⟩
    · rfl
    · rcases l with _ | ⟨a, l⟩
      · cases stay <;> rfl
      · cases stay
        · exact (hfalse stays a l rfl rfl).elim
        · exact (htrue stays a l rfl rfl).elim

theorem select_sublist (stays : List Bool) (l : List α) : (select stays l).Sublist l := by
  fun_induction select stays l with
  | case1 stays a l ih => exact ih.cons_cons a
  | case2 stays a l ih => exact ih.cons a
  | case3 => exact List.nil_sublist _

/-- Numbers the lines: each character gets the number of its line, counted from the given one. -/
def lineNumbers (n : ℕ) : List Char → List ℕ
  | [] => []
  | c :: s => n :: lineNumbers (if c = '\n' then n + 1 else n) s

theorem length_lineNumbers (n : ℕ) (s : List Char) : (lineNumbers n s).length = s.length := by
  induction s generalizing n with
  | nil => rfl
  | cons c s ih => rw [lineNumbers, List.length_cons, List.length_cons, ih]

theorem map_fst_zip_lineNumbers (n : ℕ) (s : List Char) :
    (s.zip (lineNumbers n s)).map Prod.fst = s :=
  List.map_fst_zip (length_lineNumbers n s).ge

theorem map_snd_zip_lineNumbers (n : ℕ) (s : List Char) :
    (s.zip (lineNumbers n s)).map Prod.snd = lineNumbers n s :=
  List.map_snd_zip (length_lineNumbers n s).le

/-- **A block comment leaves its line breaks**, so the characters that stay have the numbers that
they get when they are numbered anew. -/
theorem select_staysBlocks (inside : Bool) (n : ℕ) (s : List Char) :
    select (staysBlocks inside s) (s.zip (lineNumbers n s)) =
      (dropBlocks inside s).zip (lineNumbers n (dropBlocks inside s)) := by
  -- along the scan, since what stays depends on whether a comment is open
  fun_induction dropBlocks inside s generalizing n with
  | case1 rest ih => simpa [select, staysBlocks, lineNumbers] using ih n
  | case2 rest hopen ih => simp [select, staysBlocks, lineNumbers, ih]
  | case3 c rest hopen hc ih =>
    rw [staysBlocks, decide_eq_false hc, lineNumbers, List.zip_cons_cons, select, if_neg hc, ih]
    exact hopen
  | case4 rest hcloses ih => simp [select, staysBlocks, lineNumbers, hcloses, ih]
  | case5 rest hcloses ih => simp [select, staysBlocks, lineNumbers, hcloses, ih]
  | case6 c rest hopen ih =>
    rw [staysBlocks, lineNumbers, List.zip_cons_cons, select, ih, lineNumbers, List.zip_cons_cons]
    exact hopen
  | case7 inside => simp [staysBlocks, select]

/-- A line comment ends before the line break. -/
theorem select_staysLines (inside : Bool) (n : ℕ) (s : List Char) :
    select (staysLines inside s) (s.zip (lineNumbers n s)) =
      (dropLines inside s).zip (lineNumbers n (dropLines inside s)) := by
  fun_induction dropLines inside s generalizing n with
  | case1 inside => rfl
  | case2 inside rest ih => simp [select, staysLines, lineNumbers, ih]
  | case3 inside rest ih => simp [select, staysLines, lineNumbers, ih]
  | case4 c rest hbreak hopen ih =>
    rw [staysLines, if_pos rfl, lineNumbers, List.zip_cons_cons, select, if_neg hbreak, ih]
    · exact hbreak
    · exact hopen
  | case5 inside c rest hbreak hopen hinside ih =>
    rw [staysLines, if_neg hinside, lineNumbers, List.zip_cons_cons, select, ih, lineNumbers,
      List.zip_cons_cons]
    · exact hbreak
    · exact hopen

/-- **The numbered characters that are left** are what is left, numbered anew. -/
theorem leave_zip_lineNumbers (n : ℕ) (s : List Char) :
    leave s (s.zip (lineNumbers n s)) = (strip s).zip (lineNumbers n (strip s)) := by
  rw [leave, select_staysBlocks, select_staysLines, strip]

theorem leave_map (f : α → β) (s : List Char) (l : List α) :
    leave s (l.map f) = (leave s l).map f := by
  rw [leave, select_map, select_map, leave]

theorem strip_eq_leave (s : List Char) : strip s = leave s s := by
  have hleave := congrArg (List.map Prod.fst) (leave_zip_lineNumbers 1 s)
  rw [← leave_map, map_fst_zip_lineNumbers, map_fst_zip_lineNumbers] at hleave
  exact hleave.symm

/-- **What is left is numbered line by line** as it was. -/
theorem leave_lineNumbers (n : ℕ) (s : List Char) :
    leave s (lineNumbers n s) = lineNumbers n (strip s) := by
  have hleave := congrArg (List.map Prod.snd) (leave_zip_lineNumbers n s)
  rwa [← leave_map, map_snd_zip_lineNumbers, map_snd_zip_lineNumbers] at hleave

theorem leave_sublist (s : List Char) (l : List α) : (leave s l).Sublist l :=
  (select_sublist _ _).trans (select_sublist _ _)

/-! ### Survivors -/

theorem getElem?_lineNumbers (n : ℕ) (s : List Char) (k : ℕ) :
    (lineNumbers n s)[k]? = s[k]?.map fun _ => n + (s.take k).count '\n' := by
  induction s generalizing n k with
  | nil => simp [lineNumbers]
  | cons c s ih =>
    cases k with
    | zero => simp [lineNumbers]
    | succ k =>
      rw [lineNumbers, List.getElem?_cons_succ, List.getElem?_cons_succ, ih, List.take_succ_cons,
        List.count_cons]
      by_cases hc : c = '\n'
      · simp [hc, Nat.add_comm, Nat.add_left_comm]
      · simp [hc]

theorem lineNumbers_eq_map (s : List Char) :
    lineNumbers 1 s = (List.range s.length).map (lineOf s) := by
  refine List.ext_getElem? fun k => ?_
  rw [getElem?_lineNumbers, List.getElem?_map]
  by_cases hk : k < s.length
  · simp [hk, lineOf]
  · simp [hk]

theorem map_lineOf_survivors (s : List Char) :
    (survivors s).map (lineOf s) = lineNumbers 1 (strip s) := by
  rw [survivors, ← leave_map, ← lineNumbers_eq_map, leave_lineNumbers]

theorem map_getElem?_survivors (s : List Char) :
    (strip s).map some = (survivors s).map (s[·]?) := by
  have hself : (List.range s.length).map (s[·]?) = s.map some := by
    refine List.ext_getElem? fun k => ?_
    by_cases hk : k < s.length <;> simp [hk]
  rw [survivors, ← leave_map, hself, leave_map, ← strip_eq_leave]

/-- **Taking the comments out of a text keeps its lines.** -/
theorem keepsLines_strip (s : List Char) : KeepsLines s (strip s) (survivors s) where
  ascending := List.pairwise_lt_range.sublist (leave_sublist s _)
  characters := map_getElem?_survivors s
  lines k place hk := by
    have hnumber : ((survivors s).map (lineOf s))[k]? = some (lineOf s place) := by
      rw [List.getElem?_map, hk]
      rfl
    have hlength : (strip s).length = (survivors s).length := by
      simpa using congrArg List.length (map_getElem?_survivors s)
    obtain ⟨hlt, -⟩ := List.getElem?_eq_some_iff.mp hk
    rw [map_lineOf_survivors, getElem?_lineNumbers, List.getElem?_eq_getElem (hlength ▸ hlt)]
      at hnumber
    simpa [lineOf] using hnumber

/-! ### Lines of survivors -/

theorem splitOnP_map (f : α → β) (p : β → Bool) (l : List α) :
    (l.map f).splitOnP p = (l.splitOnP fun a => p (f a)).map (List.map f) := by
  induction l with
  | nil => rfl
  | cons a l ih =>
    rw [List.map_cons, List.splitOnP_cons_eq_if_modifyHead, List.splitOnP_cons_eq_if_modifyHead, ih]
    obtain ⟨first, later, hl⟩ :=
      List.exists_cons_of_ne_nil (List.splitOnP_ne_nil (fun a => p (f a)) l)
    rw [hl]
    split <;> rfl

/-- **All characters of a line have one number.** -/
theorem splitOnP_zip_lineNumbers (n : ℕ) (t : List Char) :
    (t.zip (lineNumbers n t)).splitOnP (·.1 == '\n') =
      ((t.splitOn '\n').zipIdx n).map fun e => e.1.map fun c => (c, e.2) := by
  induction t generalizing n with
  | nil => rfl
  | cons c t ih =>
    rw [lineNumbers, List.zip_cons_cons, List.splitOnP_cons_eq_if_modifyHead, ih,
      List.splitOn_eq_splitOnP, List.splitOn_eq_splitOnP, List.splitOnP_cons_eq_if_modifyHead]
    by_cases hc : c = '\n'
    · simp [hc]
    · obtain ⟨first, later, ht⟩ := List.exists_cons_of_ne_nil (List.splitOnP_ne_nil (· == '\n') t)
      rw [ht]
      simp [hc]

/-- What a line of marked characters comes to: the mark of the first character that is no blank, and
the line without the blanks at its ends. -/
def kept? (line : List (Char × α)) : Option (α × String) :=
  (line.find? (!Text.isBlank ·.1)).map fun e =>
    (e.2, Text.strip (String.ofList (line.map Prod.fst)))

theorem kept?_remark (f : α → β) (line : List (Char × α)) :
    kept? (line.map fun e => (e.1, f e.2)) = (kept? line).map fun e => (f e.1, e.2) := by
  have hfst : (line.map fun e => (e.1, f e.2)).map Prod.fst = line.map Prod.fst := by simp
  rw [kept?, kept?, hfst, List.find?_map, Option.map_map, Option.map_map]
  rfl

/-- A line of characters that all have one mark has this mark, unless it is blank. -/
theorem kept?_const (a : α) (line : List Char) :
    kept? (line.map fun c => (c, a)) =
      if Text.strip (String.ofList line) = "" then none
      else some (a, Text.strip (String.ofList line)) := by
  have hfst : (line.map fun c => (c, a)).map Prod.fst = line := by simp [Function.comp_def]
  have hblank : Text.strip (String.ofList line) = "" ↔ ∀ c ∈ line, Text.isBlank c = true := by
    rw [Text.strip_eq_empty_iff, String.toList_ofList, List.all_eq_true]
  rw [kept?, hfst]
  rcases hfind : (line.map fun c => (c, a)).find? (!Text.isBlank ·.1) with _ | ⟨c, b⟩
  · have hall : ∀ c ∈ line, Text.isBlank c = true := by simpa using List.find?_eq_none.mp hfind
    rw [hfind, if_pos (hblank.mpr hall)]
    rfl
  · obtain ⟨d, hd, hpair⟩ := List.mem_map.mp (List.mem_of_find?_eq_some hfind)
    obtain ⟨rfl, rfl⟩ := Prod.mk.inj hpair
    have hne : ¬Text.strip (String.ofList line) = "" := fun hempty => by
      have hmark := List.find?_some hfind
      simp [hblank.mp hempty d hd] at hmark
    rw [hfind, if_neg hne]
    rfl

/-- **The lines that are left of a text**, without blanks at their ends and without those that are
blank, each with the place of its first character that is no blank. -/
def leftLines (s : List Char) : List (ℕ × String) :=
  (((strip s).zip (survivors s)).splitOnP (·.1 == '\n')).filterMap kept?

/-- **A line of a text has the number of the line on which its first character stands that is no
blank.** -/
theorem lines_eq_map_leftLines (text : String) :
    lines text = (leftLines text.toList).map fun e => (lineOf text.toList e.1, e.2) := by
  set s := text.toList with hs
  -- the number of a line and the place of its first character are two marks of the same characters
  have hnumbers : ((strip s).zip (survivors s)).map (fun e => (e.1, lineOf s e.2)) =
      (strip s).zip (lineNumbers 1 (strip s)) := by
    rw [← map_lineOf_survivors, List.zip_map_right]
    rfl
  have hlines : lines text =
      (((strip s).splitOn '\n').zipIdx 1).filterMap fun e => kept? (e.1.map fun c => (c, e.2)) := by
    rw [lines, Text.pieces, String.toList_ofList, List.zipIdx_map, List.filterMap_map]
    refine List.filterMap_congr fun e _ => ?_
    rw [kept?_const]
    rfl
  calc lines text
      = (((strip s).zip (lineNumbers 1 (strip s))).splitOnP (·.1 == '\n')).filterMap kept? := by
        rw [hlines, splitOnP_zip_lineNumbers, List.filterMap_map]
        rfl
    _ = (((strip s).zip (survivors s)).splitOnP (·.1 == '\n')).filterMap fun line =>
          kept? (line.map fun e => (e.1, lineOf s e.2)) := by
        rw [← hnumbers, splitOnP_map, List.filterMap_map]
        rfl
    _ = (leftLines s).map fun e => (lineOf s e.1, e.2) := by
        rw [leftLines, List.map_filterMap]
        exact List.filterMap_congr fun line _ => kept?_remark _ _

end ShiftReduce.Comment

namespace ShiftReduce.Script

/-- **The orphans of a script by place**: the lines that are left before the first production line,
each with the place of its first character that is no blank. -/
def orphanPlaces (script : String) : List (ℕ × String) :=
  (Comment.leftLines script.toList).takeWhile fun e => ¬IsProduction e.2

theorem orphans_eq_map (script : String) :
    orphans script =
      (orphanPlaces script).map fun e => (Comment.lineOf script.toList e.1, e.2) := by
  rw [orphans, Comment.lines_eq_map_leftLines, List.takeWhile_map, orphanPlaces]
  rfl

/-- **Comments keep the lines of a script.** What is left of it without comments are characters of
the script, each on the line on which it was written. And the script is refused exactly if something
other than blanks is left of a line before the first production line; then there is one problem for
each such line, in their order, and it gives the number of the line on which the first character
that is left of it and is no blank was written. -/
theorem comments_keep_lines (script : String) :
    Comment.KeepsLines script.toList (Comment.strip script.toList)
        (Comment.survivors script.toList) ∧
      (∀ problems, rows script = .error problems ↔ orphanPlaces script ≠ [] ∧
        problems = (orphanPlaces script).map fun e =>
          .orphanLine (Comment.lineOf script.toList e.1)) ∧
      ∀ number, (Problem.orphanLine number).text =
        "Line " ++ toString number ++ ": expected a production like 'A -> alpha'" := by
  refine ⟨Comment.keepsLines_strip _, fun problems => ?_, fun number => rfl⟩
  rw [rows_eq_error_iff, orphans_eq_map, ne_eq, List.map_eq_nil_iff, List.map_map]
  rfl

/-- A script with comments of both kinds and two lines in front of its first production. -/
def mixedScript : String :=
  "/* a\n b */ x // y\n\n /**/ | /* z\n*/\nA -> a\nw"

theorem comments_keep_lines_mixedScript :
    rows mixedScript = .error [.orphanLine 2, .orphanLine 4] ∧
      (Comment.survivors mixedScript.toList).map (mixedScript.toList[·]?) =
        "\n x \n\n  | \n\nA -> a\nw".toList.map some := by
  obtain ⟨hkeeps, hrefused, -⟩ := comments_keep_lines mixedScript
  exact ⟨(hrefused _).mpr (by decide +kernel), hkeeps.characters.symm.trans (by decide +kernel)⟩

end ShiftReduce.Script

import ShiftReduce.Grammar.Script
import ShiftReduce.Proofs.Grammar.Comment

/-!
# What is written in a line comment

Block comments are taken out before line comments are looked for, so what is written behind two
slashes may open a block comment that ends lines later, or close one that was open
(`ShiftReduce.Script.rows_commented_ne`). Anything else that is written there makes no difference:
a body in which no block comment begins or ends (`ShiftReduce.Comment.IsInert`) may be replaced by
any other one (`ShiftReduce.Script.rows_commented`).

The slashes have to be outside of every block comment. Whether they are is read off the text in
front of them and the text behind them (`ShiftReduce.Comment.reachesInto`). The proof goes along
the text in front, and what is left of it does not depend on the body
(`ShiftReduce.Comment.exists_dropBlocks_commented`).
-/

namespace ShiftReduce.Comment

/-- Whether a block comment that begins in a text reaches into the text behind it; `inside` says
whether one is open at first. -/
def reachesInto : (inside : Bool) → (s behind : List Char) → Bool
  | true, '*' :: '/' :: rest, behind => reachesInto false rest behind
  | true, _ :: rest, behind => reachesInto true rest behind
  | false, '/' :: '*' :: rest, behind =>
    if closes (rest ++ behind) then reachesInto true rest behind else reachesInto false rest behind
  | false, _ :: rest, behind => reachesInto false rest behind
  | inside, [], _ => inside

/-- **The end of a line**: nothing or a line break comes next. -/
def IsLineEnd (behind : List Char) : Prop :=
  ∀ c ∈ behind.head?, c = '\n'

instance : ∀ behind : List Char, Decidable (IsLineEnd behind)
  | [] => isTrue fun _ hc => absurd hc (Option.not_mem_none _)
  | c :: _ => decidable_of_iff (c = '\n') (by simp [IsLineEnd])

/-- **An inert body** of a line comment: it stands on one line, and no block comment begins or ends
in it. It begins with the second slash of the line comment. -/
structure IsInert (body : List Char) : Prop where
  /-- It stands on one line. -/
  break_notMem : '\n' ∉ body
  /-- No block comment begins in it, nor with the slash in front of it. -/
  not_opens : ¬['/', '*'] <:+: '/' :: body
  /-- No block comment ends in it. -/
  not_closes : ¬['*', '/'] <:+: body

variable {s behind body body' : List Char} {inside : Bool}

theorem IsLineEnd.cases (h : IsLineEnd behind) : behind = [] ∨ ∃ rest, behind = '\n' :: rest := by
  rcases behind with _ | ⟨c, rest⟩
  · exact Or.inl rfl
  · exact Or.inr ⟨rest, by rw [h c rfl]⟩

/-- What is left of a line end without block comments is a line end. -/
theorem IsLineEnd.dropBlocks (h : IsLineEnd behind) : IsLineEnd (dropBlocks false behind) := by
  rcases h.cases with rfl | ⟨rest, rfl⟩
  · exact h
  · intro c hc
    simpa [Comment.dropBlocks, eq_comm] using hc

/-! ### Block comments -/

/-- Two characters stand side by side at the start of a text or behind its first character. -/
theorem pair_infix_cons_iff {a b c : Char} {s : List Char} :
    [a, b] <:+: c :: s ↔ c = a ∧ b ∈ s.head? ∨ [a, b] <:+: s := by
  rw [List.infix_cons_iff]
  rcases s with _ | ⟨d, s⟩
  · simp
  · simp [List.cons_prefix_cons, eq_comm]

/-- Behind a character that begins no pair in front of a seam, and none across it, the other
character of the pair does not stand. -/
theorem append_ne_of_not_infix {a b c : Char} {s t : List Char} (h : ¬[a, b] <:+: c :: s)
    (hseam : s = [] → c = a → b ∉ t.head?) (rest : List Char) (hc : c = a) :
    s ++ t ≠ b :: rest := by
  intro heq
  rw [pair_infix_cons_iff, not_or] at h
  rcases s with _ | ⟨d, s⟩
  · rw [List.nil_append] at heq
    exact hseam rfl hc (by simp [heq])
  · obtain ⟨rfl, -⟩ := List.cons.inj heq
    exact h.1 ⟨hc, rfl⟩

/-- Two characters that stand side by side across a seam are the last one in front of it and the
first one behind it. -/
theorem pair_infix_append_iff {a b : Char} {s t : List Char} :
    [a, b] <:+: s ++ t ↔ [a, b] <:+: s ∨ [a, b] <:+: t ∨ a ∈ s.getLast? ∧ b ∈ t.head? := by
  induction s with
  | nil => simp
  | cons c s ih =>
    rw [List.cons_append, List.infix_cons_iff, List.infix_cons_iff, ih]
    rcases s with _ | ⟨d, s⟩
    · rcases t with _ | ⟨e, t⟩
      · simp
      · simp only [List.nil_append, List.cons_prefix_cons, List.nil_prefix, and_true,
          List.getLast?_singleton, List.head?_cons, Option.mem_some_iff]
        grind
    · simp only [List.cons_append, List.cons_prefix_cons, List.nil_prefix, and_true,
        List.getLast?_cons_cons]
      grind

/-- An inert body does not decide whether a block comment is closed. -/
theorem closes_append_commented (hend : IsLineEnd behind) (hbody : IsInert body) (s : List Char) :
    closes (s ++ '/' :: '/' :: (body ++ behind)) = closes (s ++ '/' :: '/' :: behind) := by
  have hseam : ¬('*' ∈ ('/' :: '/' :: body).getLast? ∧ '/' ∈ behind.head?) :=
    fun h => absurd (hend _ h.2) (by decide)
  have hslashes (t : List Char) : ['*', '/'] <:+: '/' :: '/' :: t ↔ ['*', '/'] <:+: t := by
    simp [List.infix_cons_iff]
  have hall : ['*', '/'] <:+: '/' :: '/' :: (body ++ behind) ↔
      ['*', '/'] <:+: '/' :: '/' :: behind := by
    have happend :=
      pair_infix_append_iff (a := '*') (b := '/') (s := '/' :: '/' :: body) (t := behind)
    rw [List.cons_append, List.cons_append] at happend
    rw [happend, hslashes, hslashes, or_iff_right hbody.not_closes, or_iff_left hseam]
  rw [Bool.eq_iff_iff, closes_iff, closes_iff, pair_infix_append_iff, pair_infix_append_iff, hall]
  rfl

/-- A text in which no block comment begins is kept. -/
theorem dropBlocks_append_of_not_opens (hopens : ¬['/', '*'] <:+: s) (hend : IsLineEnd behind) :
    dropBlocks false (s ++ behind) = s ++ dropBlocks false behind := by
  induction s with
  | nil => rfl
  | cons c s ih =>
    have hrest : ¬['/', '*'] <:+: s := fun h => hopens (pair_infix_cons_iff.mpr (.inr h))
    rw [List.cons_append, dropBlocks, ih hrest, List.cons_append]
    -- a star behind the slash stands in the text, since the text behind it begins with none
    exact fun rest hc => append_ne_of_not_infix hopens
      (fun _ _ hhead => absurd (hend '*' hhead) (by decide)) rest hc

/-- **What is left in front of a line comment without block comments does not depend on its
body**, as long as this is inert and the slashes stand outside of every block comment. -/
theorem exists_dropBlocks_commented (hend : IsLineEnd behind)
    (hplace : reachesInto inside s ('/' :: '/' :: behind) = false) :
    ∃ kept, ∀ body, IsInert body → dropBlocks inside (s ++ '/' :: '/' :: (body ++ behind)) =
      kept ++ '/' :: '/' :: (body ++ dropBlocks false behind) := by
  -- along the text in front, with the cases of the scan for block comments
  generalize htail : '/' :: '/' :: behind = tail at hplace
  fun_induction reachesInto inside s tail with
  | case1 rest tail ih =>
    obtain ⟨kept, hkept⟩ := ih htail hplace
    exact ⟨kept, fun body hbody => by
      rw [List.cons_append, List.cons_append, dropBlocks, hkept body hbody]⟩
  | case2 c rest tail hopen ih =>
    obtain ⟨kept, hkept⟩ := ih htail hplace
    refine ⟨if c = '\n' then '\n' :: kept else kept, fun body hbody => ?_⟩
    rw [List.cons_append, dropBlocks, hkept body hbody]
    · split <;> rfl
    · -- the star does not meet the slash of the line comment: then the comment would be open
      rintro later rfl hrest
      rcases rest with _ | ⟨d, rest⟩
      · exact absurd hplace (by simp [reachesInto])
      · obtain ⟨rfl, -⟩ := List.cons.inj hrest
        exact hopen rest rfl rfl
  | case3 rest tail hcloses ih =>
    obtain ⟨kept, hkept⟩ := ih htail hplace
    subst htail
    refine ⟨kept, fun body hbody => ?_⟩
    rw [List.cons_append, List.cons_append, dropBlocks,
      closes_append_commented hend hbody, if_pos hcloses, hkept body hbody]
  | case4 rest tail hcloses ih =>
    obtain ⟨kept, hkept⟩ := ih htail hplace
    subst htail
    refine ⟨'/' :: '*' :: kept, fun body hbody => ?_⟩
    rw [List.cons_append, List.cons_append, dropBlocks,
      closes_append_commented hend hbody, if_neg hcloses, hkept body hbody]
    rfl
  | case5 c rest tail hopen ih =>
    obtain ⟨kept, hkept⟩ := ih htail hplace
    refine ⟨c :: kept, fun body hbody => ?_⟩
    rw [List.cons_append, dropBlocks, hkept body hbody, List.cons_append]
    rintro later rfl hrest
    rcases rest with _ | ⟨d, rest⟩
    · exact absurd (List.cons.inj hrest).1 (by decide)
    · obtain ⟨rfl, -⟩ := List.cons.inj hrest
      exact hopen rest rfl rfl
  | case6 inside tail =>
    subst hplace
    refine ⟨[], fun body hbody => ?_⟩
    have hopens : ¬['/', '*'] <:+: '/' :: '/' :: body := fun h => by
      rw [List.infix_cons_iff] at h
      exact h.elim (by simp) hbody.not_opens
    exact dropBlocks_append_of_not_opens hopens hend

/-! ### Line comments -/

/-- In a line comment a character is as good as none, unless it ends the line. -/
theorem dropLines_true_cons {c : Char} (hc : c ≠ '\n') (s : List Char) :
    dropLines true (c :: s) = dropLines true s := by
  induction s generalizing c with
  | nil => simp [dropLines]
  | cons d s ih =>
    by_cases hpair : c = '/' ∧ d = '/'
    · obtain ⟨rfl, rfl⟩ := hpair
      rw [dropLines, ih hc]
    · rw [dropLines, if_pos rfl]
      · exact hc
      · rintro rest rfl hrest
        exact hpair ⟨rfl, (List.cons.inj hrest).1⟩

theorem dropLines_true_append (hbody : '\n' ∉ body) (behind : List Char) :
    dropLines true (body ++ behind) = dropLines true behind := by
  induction body with
  | nil => rfl
  | cons c body ih =>
    rw [List.mem_cons, not_or] at hbody
    rw [List.cons_append, dropLines_true_cons (Ne.symm hbody.1), ih hbody.2]

/-- **The body of a line comment is dropped**, whatever is in front of the comment. -/
theorem dropLines_commented (hbody : '\n' ∉ body) (inside : Bool) (kept behind : List Char) :
    dropLines inside (kept ++ '/' :: '/' :: (body ++ behind)) =
      dropLines inside (kept ++ '/' :: '/' :: behind) := by
  induction inside, kept using dropLines.induct with
  | case1 inside =>
    rw [List.nil_append, List.nil_append, dropLines, dropLines, dropLines_true_append hbody]
  | case2 inside rest ih =>
    rw [List.cons_append, List.cons_append, dropLines, dropLines, ih]
  | case3 inside rest ih =>
    rw [List.cons_append, List.cons_append, List.cons_append, List.cons_append, dropLines,
      dropLines, ih]
  | case4 c rest hbreak hopen ih =>
    rw [List.cons_append, List.cons_append, dropLines_true_cons hbreak,
      dropLines_true_cons hbreak, ih]
  | case5 inside c rest hbreak hopen hinside ih =>
    by_cases hslash : c = '/' ∧ rest = []
    · -- the slash in front and the first slash of the comment begin the comment
      obtain ⟨rfl, rfl⟩ := hslash
      have hsecond (s : List Char) :
          dropLines inside ('/' :: '/' :: '/' :: s) = dropLines true s := by
        rw [dropLines, dropLines_true_cons (by decide)]
      rw [List.cons_append, List.cons_append, List.nil_append, List.nil_append, hsecond, hsecond,
        dropLines_true_append hbody]
    · have hcons : ∀ s, dropLines inside (c :: (rest ++ '/' :: s)) =
          c :: dropLines false (rest ++ '/' :: s) := fun s => by
        rw [dropLines, if_neg hinside]
        · exact hbreak
        · rintro later rfl hrest
          rcases rest with _ | ⟨d, rest⟩
          · exact hslash ⟨rfl, rfl⟩
          · exact hopen rest rfl (by rw [(List.cons.inj hrest).1])
      rw [List.cons_append, List.cons_append, hcons, hcons, ih]

/-- **A body that is inert makes no difference** to what is left of a text without its comments. -/
theorem strip_commented (hend : IsLineEnd behind)
    (hplace : reachesInto false s ('/' :: '/' :: behind) = false) (hbody : IsInert body)
    (hbody' : IsInert body') : strip (s ++ '/' :: '/' :: (body ++ behind)) =
      strip (s ++ '/' :: '/' :: (body' ++ behind)) := by
  obtain ⟨kept, hkept⟩ := exists_dropBlocks_commented hend hplace
  rw [strip, strip, hkept body hbody, hkept body' hbody', dropLines_commented hbody.break_notMem,
    dropLines_commented hbody'.break_notMem]

/-- The lines of a text are told from the text without comments. -/
theorem lines_congr {text text' : String} (h : strip text.toList = strip text'.toList) :
    lines text = lines text' := by
  rw [lines, lines, h]

end ShiftReduce.Comment

namespace ShiftReduce.Script

/-- A text with a line comment. -/
def commented (front body behind : String) : String :=
  front ++ "//" ++ body ++ behind

/-- **What is written in a line comment makes no difference, as long as no block comment begins or
ends in it.** For every text with a line comment that stands outside of every block comment and goes
on to the end of its line, and any other body of this kind, the script gives the same rows or is
refused for the same lines. -/
theorem rows_commented {front body body' behind : String}
    (hend : Comment.IsLineEnd behind.toList)
    (hplace : Comment.reachesInto false front.toList ("//" ++ behind).toList = false)
    (hbody : Comment.IsInert body.toList) (hbody' : Comment.IsInert body'.toList) :
    rows (commented front body behind) = rows (commented front body' behind) := by
  have htext : ∀ body, (commented front body behind).toList =
      front.toList ++ '/' :: '/' :: (body.toList ++ behind.toList) := fun body => by
    simp [commented]
  have hstrip : Comment.strip (commented front body behind).toList =
      Comment.strip (commented front body' behind).toList := by
    rw [htext, htext]
    exact Comment.strip_commented hend (by simpa using hplace) hbody hbody'
  rw [rows, rows, read, read, Comment.lines_congr hstrip]

theorem rows_commented_star :
    Comment.IsInert "a * b".toList ∧ Comment.IsInert " /".toList ∧
      rows (commented "A -> a /* * */ " "a * b" "\nB -> b /* c */") =
        rows (commented "A -> a /* * */ " " /" "\nB -> b /* c */") := by
  have hstar : Comment.IsInert "a * b".toList := ⟨by decide, by decide, by decide⟩
  have hslash : Comment.IsInert " /".toList := ⟨by decide, by decide, by decide⟩
  exact ⟨hstar, hslash, rows_commented (by decide) (by decide +kernel) hstar hslash⟩

/-- **A body in which a block comment begins makes a difference**: the line comment stands outside
of every block comment, but what is written in it takes the next production away. -/
theorem rows_commented_ne :
    Comment.IsLineEnd "\nB -> b /* c */".toList ∧
      Comment.reachesInto false "A -> a".toList "\nB -> b /* c */".toList = false ∧
      ¬['/', '/'] <:+: "A -> a".toList ∧ '\n' ∉ "".toList ∧ '\n' ∉ "/*".toList ∧
      rows (commented "A -> a" "" "\nB -> b /* c */") ≠
        rows (commented "A -> a" "/*" "\nB -> b /* c */") := by
  have hboth : (rows (commented "A -> a" "" "\nB -> b /* c */")).toOption.map List.length =
      some 2 := by decide +kernel
  have hone : (rows (commented "A -> a" "/*" "\nB -> b /* c */")).toOption.map List.length =
      some 1 := by decide +kernel
  refine ⟨by decide, by decide, by decide, by decide, by decide, fun h => ?_⟩
  rw [h, hone] at hboth
  exact absurd hboth (by decide)

end ShiftReduce.Script

import ShiftReduce.Grammar.Script
import ShiftReduce.Proofs.Text.Lexeme
import ShiftReduce.Proofs.Text.Pieces

/-!
# Lines of a script

A production line is a name, perhaps blanks, an arrow, and the text of the alternatives
(`ShiftReduce.Script.IsProductionLine`). A name ends at the first blank or arrow behind it, so
there is one way only to read such a line (`ShiftReduce.Script.IsProductionLine.ofText`), and what
is read as one is one (`ShiftReduce.Script.exists_isProductionLine`). Any other line begins with a
bar or is plain (`ShiftReduce.Script.line_cases`).

The alternatives in a text are its pieces between the bars without the blanks at their ends
(`ShiftReduce.Script.alternativesIn`). A production line can be broken before any of its bars: the
first part is a production line again, the second one begins with the bar, and together they hold
the same alternatives (`ShiftReduce.Script.IsProductionLine.exists_break`).
-/

namespace ShiftReduce.Script

/-- The spellings of the arrow. -/
def arrows : List String := ["->", ":", "="]

/-- **A name**: an ASCII letter or an underscore, and behind it word characters and apostrophes. -/
def IsName (A : Symbol) : Prop :=
  ∃ c rest, A.toList = c :: rest ∧ Text.isNameStart c = true ∧
    ∀ d ∈ rest, Text.isNameRest d = true

/-- **A production line** of a name: the name, perhaps blanks, an arrow, and whatever stands
behind it. -/
def IsProductionLine (line : String) (A : Symbol) (rest : String) : Prop :=
  IsName A ∧ ∃ gap arrow, (∀ c ∈ gap.toList, Text.isBlank c = true) ∧ arrow ∈ arrows ∧
    line = A ++ (gap ++ (arrow ++ rest))

/-- A production line, of whatever name. -/
def IsProduction (line : String) : Prop :=
  ∃ A rest, IsProductionLine line A rest

/-- **A regular line**: a production line, or a line that begins with a bar. -/
def IsRegularLine (line : String) : Prop :=
  (∃ A rest, IsProductionLine line A rest) ∨ ∃ rest, line = "|" ++ rest

/-- The alternatives in a text: its pieces between the bars, without the blanks at their ends. -/
def alternativesIn (text : String) : List String :=
  (Text.pieces '|' text).map Text.strip

variable {line rest : String} {A : Symbol}

/-! ### How a line is read -/

/-- A blank does not go on with a name. -/
theorem isNameRest_of_isBlank {c : Char} (h : Text.isBlank c = true) :
    Text.isNameRest c = false := by
  -- there are few blanks, so each of them is tried
  have hblanks : (Text.blankRanges.flatMap fun r => List.range' r.1 (r.2 + 1 - r.1)).all
      (fun code => !Text.isNameRest (Char.ofNat code)) = true := by decide +kernel
  obtain ⟨r, hr, hlow, hhigh⟩ := Text.inRanges_iff.mp h
  have hmem : c.toNat ∈ Text.blankRanges.flatMap fun r => List.range' r.1 (r.2 + 1 - r.1) :=
    List.mem_flatMap.mpr ⟨r, hr, List.mem_range'_1.mpr ⟨hlow, by omega⟩⟩
  simpa [Char.ofNat_toNat] using List.all_eq_true.mp hblanks _ hmem

/-- An arrow begins with a character that is no blank and does not go on with a name, and it ends
with no blank. It holds no bar. -/
theorem shape_of_mem_arrows {arrow : String} (h : arrow ∈ arrows) :
    (∃ c more, arrow.toList = c :: more ∧ Text.isBlank c = false ∧ Text.isNameRest c = false) ∧
      (∃ front c, arrow.toList = front ++ [c] ∧ Text.isBlank c = false) ∧ '|' ∉ arrow.toList ∧
      ∀ s, afterArrow? (arrow.toList ++ s) = some s := by
  have hcases : arrow = "->" ∨ arrow = ":" ∨ arrow = "=" := by simpa [arrows] using h
  rcases hcases with rfl | rfl | rfl
  · exact ⟨⟨'-', ['>'], by decide, by decide, by decide +kernel⟩,
      ⟨['-'], '>', by decide, by decide⟩, by decide, fun s => rfl⟩
  · exact ⟨⟨':', [], by decide, by decide, by decide +kernel⟩, ⟨[], ':', by decide, by decide⟩,
      by decide, fun s => rfl⟩
  · exact ⟨⟨'=', [], by decide, by decide, by decide +kernel⟩, ⟨[], '=', by decide, by decide⟩,
      by decide, fun s => rfl⟩

/-- A character of a name is no mark and no slash. -/
theorem IsName.not_isMark (h : IsName A) {c : Char} (hc : c ∈ A.toList) :
    Text.isMark c = false ∧ c ≠ '/' := by
  have hmarks : ['/', '(', ')', '+', '*', '|', '$'].all
      (fun d => !Text.isNameStart d && !Text.isNameRest d) = true := by decide +kernel
  have hnot : c ∉ ['/', '(', ')', '+', '*', '|', '$'] := by
    intro hmem
    obtain ⟨hstart, hrest⟩ : Text.isNameStart c = false ∧ Text.isNameRest c = false := by
      simpa using List.all_eq_true.mp hmarks c hmem
    obtain ⟨d, rest, hlist, hd, hall⟩ := h
    rw [hlist] at hc
    rcases List.mem_cons.mp hc with rfl | hc
    · rw [hstart] at hd
      exact absurd hd (by simp)
    · rw [hall c hc] at hrest
      exact absurd hrest (by simp)
  rw [List.mem_cons, not_or] at hnot
  refine ⟨?_, hnot.1⟩
  rw [← Bool.not_eq_true, Text.isMark_iff]
  exact hnot.2

/-- A name holds no blank. -/
theorem IsName.isBlank (h : IsName A) {c : Char} (hc : c ∈ A.toList) : Text.isBlank c = false := by
  obtain ⟨d, rest, hlist, hd, hall⟩ := h
  rw [← Bool.not_eq_true]
  intro hblank
  rw [hlist] at hc
  rcases List.mem_cons.mp hc with rfl | hc
  · have hrest : Text.isNameStart c = true → Text.isNameRest c = true := fun hstart => by
      rcases Bool.or_eq_true_iff.mp hstart with halpha | hline
      · simp [Text.isNameRest, Text.isWord_of_isAlphanum, Char.isAlphanum, halpha]
      · simp [Text.isNameRest, Text.isWord, hline]
    exact absurd (hrest hd) (by simp [isNameRest_of_isBlank hblank])
  · exact absurd (hall c hc) (by simp [isNameRest_of_isBlank hblank])

/-- So nothing is taken off a name. -/
theorem IsName.strip_eq (h : IsName A) : Text.strip A = A :=
  Text.strip_eq_self_of_forall fun _ => h.isBlank

theorem IsName.ne_empty (h : IsName A) : A ≠ "" := by
  rintro rfl
  obtain ⟨c, rest, hlist, -⟩ := h
  exact absurd hlist (by simp)

namespace IsProductionLine

/-- **The name of a production line ends at the first blank or arrow behind it.** -/
theorem production?_toList (h : IsProductionLine line A rest) :
    production? line.toList = some (A.toList, Text.trimStart rest.toList) := by
  obtain ⟨⟨c, more, hA, hc, hmore⟩, gap, arrow, hgap, harrow, rfl⟩ := h
  obtain ⟨⟨d, tail, hd, hblank, hname⟩, -, -, hafter⟩ := shape_of_mem_arrows harrow
  set behind := gap.toList ++ (arrow.toList ++ rest.toList) with hbehind
  have hline : (A ++ (gap ++ (arrow ++ rest))).toList = c :: (more ++ behind) := by
    simp only [String.toList_append, hA, List.cons_append, hbehind]
  have hstop : behind.takeWhile Text.isNameRest = [] ∧
      behind.dropWhile Text.isNameRest = behind := by
    obtain ⟨e, others, he, hrest⟩ : ∃ e others, behind = e :: others ∧
        Text.isNameRest e = false := by
      rcases hlist : gap.toList with _ | ⟨e, others⟩
      · exact ⟨d, _, by rw [hbehind, hlist, hd]; rfl, hname⟩
      · exact ⟨e, _, by rw [hbehind, hlist]; rfl,
          isNameRest_of_isBlank (hgap e (hlist ▸ List.mem_cons_self))⟩
    rw [he]
    exact ⟨List.takeWhile_cons_of_neg (by simp [hrest]),
      List.dropWhile_cons_of_neg (by simp [hrest])⟩
  have htrim : Text.trimStart behind = arrow.toList ++ rest.toList := by
    rw [hbehind, Text.trimStart, List.dropWhile_append_of_pos hgap, hd]
    exact List.dropWhile_cons_of_neg (by simp [hblank])
  rw [hline, production?, if_pos hc, List.takeWhile_append_of_pos hmore,
    List.dropWhile_append_of_pos hmore, hstop.1, hstop.2, List.append_nil, htrim]
  simp only [hafter, Option.map_some, hA]

/-- **There is one way only to read a production line.** -/
theorem ofText (h : IsProductionLine line A rest) :
    Line.ofText line = .production A (String.ofList (Text.trimStart rest.toList)) := by
  have hproduction := h.production?_toList
  have hbar : ∀ tail, line.toList ≠ '|' :: tail := by
    intro tail hlist
    rw [hlist, production?, if_neg (by decide)] at hproduction
    exact absurd hproduction (by simp)
  unfold Line.ofText
  split
  · next tail hlist => exact absurd hlist (hbar tail)
  · rw [hproduction]
    simp only [String.ofList_toList]

end IsProductionLine

theorem ofText_bar (rest : String) : Line.ofText ("|" ++ rest) = .bar rest := by
  have hlist : ("|" ++ rest).toList = '|' :: rest.toList := by simp
  unfold Line.ofText
  rw [hlist]
  simp only [String.ofList_toList]

theorem exists_eq_append_of_afterArrow? {s t : List Char} (h : afterArrow? s = some t) :
    ∃ arrow ∈ arrows, s = arrow.toList ++ t := by
  unfold afterArrow? at h
  split at h
  · exact ⟨"->", by decide, by simpa using h⟩
  · exact ⟨":", by decide, by simpa using h⟩
  · exact ⟨"=", by decide, by simpa using h⟩
  · exact absurd h (by simp)

/-- **What is read as a production line is one.** -/
theorem exists_isProductionLine {name alternatives : List Char}
    (h : production? line.toList = some (name, alternatives)) :
    ∃ rest, IsProductionLine line (String.ofList name) rest := by
  rcases hline : line.toList with _ | ⟨c, more⟩
  · rw [hline] at h
    exact absurd h (by simp [production?])
  rw [hline, production?] at h
  split at h
  case isFalse => exact absurd h (by simp)
  case isTrue hc =>
    obtain ⟨behind, hbehind, hpair⟩ := Option.map_eq_some_iff.mp h
    obtain ⟨rfl, -⟩ := Prod.mk.inj hpair
    obtain ⟨arrow, harrow, htrim⟩ := exists_eq_append_of_afterArrow? hbehind
    obtain ⟨gap, hgap, hblank⟩ := Text.exists_eq_trimStart (more.dropWhile Text.isNameRest)
    rw [htrim] at hgap
    refine ⟨String.ofList behind, ⟨c, more.takeWhile Text.isNameRest, by simp, hc,
      fun d hd => List.mem_takeWhile_imp hd⟩, String.ofList gap, arrow, by simpa using hblank,
      harrow, ?_⟩
    apply String.toList_inj.mp
    have hmore : more = more.takeWhile Text.isNameRest ++ (gap ++ (arrow.toList ++ behind)) := by
      rw [← hgap, List.takeWhile_append_dropWhile]
    rw [hline]
    simpa using hmore

theorem isProduction_iff : IsProduction line ↔ (production? line.toList).isSome = true := by
  constructor
  · rintro ⟨A, rest, h⟩
    rw [h.production?_toList]
    rfl
  · intro h
    obtain ⟨⟨name, alternatives⟩, hsome⟩ := Option.isSome_iff_exists.mp h
    exact ⟨_, exists_isProductionLine hsome⟩

instance (line : String) : Decidable (IsProduction line) :=
  decidable_of_iff _ isProduction_iff.symm

/-- **A line is one of three things.** -/
theorem line_cases (line : String) :
    IsProduction line ∨ (∃ rest, line = "|" ++ rest) ∨ Line.ofText line = .plain line := by
  unfold Line.ofText
  split
  · next rest hlist => exact Or.inr (Or.inl ⟨String.ofList rest, String.toList_inj.mp (by simpa)⟩)
  · split
    · next hsome => exact Or.inl ⟨_, exists_isProductionLine hsome⟩
    · exact Or.inr (Or.inr rfl)

/-! ### Alternatives -/

/-- An alternative holds no bar. -/
theorem bar_notMem_of_mem_alternativesIn {text x : String} (h : x ∈ alternativesIn text) :
    '|' ∉ x.toList := by
  obtain ⟨piece, hpiece, rfl⟩ := List.mem_map.mp h
  obtain ⟨w, hw, rfl⟩ := List.mem_map.mp hpiece
  rw [Text.strip, String.toList_ofList, String.toList_ofList, Text.mem_trim_iff (by decide)]
  exact Text.notMem_of_mem_splitOn hw

/-- A text without a bar is one alternative. -/
theorem alternativesIn_of_notMem {text : String} (h : '|' ∉ text.toList) :
    alternativesIn text = [Text.strip text] := by
  simp [alternativesIn, Text.pieces, List.splitOn_eq_singleton h]

/-- **A bar keeps the alternatives of two texts apart.** -/
theorem alternativesIn_append (s t : String) :
    alternativesIn (s ++ ("|" ++ t)) = alternativesIn s ++ alternativesIn t := by
  have hpieces : Text.pieces '|' (s ++ ("|" ++ t)) = Text.pieces '|' s ++ Text.pieces '|' t :=
    Text.pieces_append '|' s t
  rw [alternativesIn, hpieces, List.map_append]
  rfl

/-- **Blanks at the ends of a text do not belong to its alternatives.** -/
theorem alternativesIn_blanks {before after : List Char} (text : List Char)
    (hbefore : ∀ c ∈ before, Text.isBlank c = true) (hafter : ∀ c ∈ after, Text.isBlank c = true) :
    alternativesIn (String.ofList (before ++ (text ++ after))) =
      alternativesIn (String.ofList text) := by
  have hmap : ∀ s : List Char, alternativesIn (String.ofList s) =
      ((s.splitOn '|').map Text.trim).map String.ofList := by
    intro s
    simp [alternativesIn, Text.pieces, Text.strip, Function.comp_def]
  rw [hmap, hmap, Text.map_trim_splitOn (by decide) hbefore hafter]

theorem alternativesIn_trimStart (text : String) :
    alternativesIn (String.ofList (Text.trimStart text.toList)) = alternativesIn text := by
  obtain ⟨before, hs, hbefore⟩ := Text.exists_eq_trimStart text.toList
  have hsame := alternativesIn_blanks (Text.trimStart text.toList) hbefore (List.forall_mem_nil _)
  rw [List.append_nil, ← hs, String.ofList_toList] at hsame
  exact hsame.symm

/-- Blanks at the end of a text are taken off what stands behind a head that has none at its ends,
and the alternatives stay the same. -/
theorem exists_strip_append (head rest : String) (hne : head ≠ "")
    (hfirst : ∀ c ∈ head.toList.head?, Text.isBlank c = false)
    (hlast : ∀ c ∈ head.toList.getLast?, Text.isBlank c = false) :
    ∃ rest', Text.strip (head ++ rest) = head ++ rest' ∧
      alternativesIn rest' = alternativesIn rest := by
  obtain ⟨front, blanks, hrest, hfront, hblanks⟩ := Text.exists_eq_append_blanks rest.toList
  refine ⟨String.ofList front, ?_, ?_⟩
  · have hbegin : ∀ c ∈ (head.toList ++ front).head?, Text.isBlank c = false := by
      rwa [List.head?_append_of_ne_nil _ (by simpa using hne)]
    have hend : ∀ c ∈ (head.toList ++ front).getLast?, Text.isBlank c = false := by
      intro c hc
      rcases List.eq_nil_or_concat front with rfl | ⟨front, d, rfl⟩
      · exact hlast c (by simpa using hc)
      · obtain rfl : d = c := by simpa using hc
        exact hfront d (by simp)
    have hwhole : (head ++ rest).toList = (head.toList ++ front) ++ blanks := by simp [hrest]
    rw [Text.strip, hwhole, Text.trim_append_right _ hblanks, Text.trim_eq_self hbegin hend]
    apply String.toList_inj.mp
    simp
  · have hsame := alternativesIn_blanks front (List.forall_mem_nil _) hblanks
    rw [List.nil_append, ← hrest, String.ofList_toList] at hsame
    exact hsame.symm

/-- **Blanks at the end of a production line do not matter.** -/
theorem IsProductionLine.exists_strip (h : IsProductionLine line A rest) :
    ∃ rest', IsProductionLine (Text.strip line) A rest' ∧
      alternativesIn rest' = alternativesIn rest := by
  obtain ⟨hname, gap, arrow, hgap, harrow, rfl⟩ := h
  obtain ⟨-, ⟨init, c, hinit, hc⟩, -, -⟩ := shape_of_mem_arrows harrow
  have hhead : (A ++ (gap ++ arrow)).toList = A.toList ++ (gap.toList ++ (init ++ [c])) := by
    simp [hinit]
  have hne : A.toList ≠ [] := by simpa using hname.ne_empty
  obtain ⟨rest', hstrip, hrest'⟩ := exists_strip_append (A ++ (gap ++ arrow)) rest
    (fun hempty => hne (by simpa [hempty] using hhead.symm))
    (fun d hd => by
      rw [hhead, List.head?_append_of_ne_nil _ hne] at hd
      exact hname.isBlank (List.mem_of_mem_head? hd))
    (fun d hd => by
      obtain rfl : c = d := by simpa [hhead] using hd
      exact hc)
  refine ⟨rest', ⟨hname, gap, arrow, hgap, harrow, ?_⟩, hrest'⟩
  simpa only [String.append_assoc] using hstrip

/-! ### Breaking a line before a bar -/

/-- The alternatives in front of a bar, which blanks may stand before, and those behind it. -/
theorem alternativesIn_break {gap : List Char} (before behind : List Char)
    (hgap : ∀ c ∈ gap, Text.isBlank c = true) :
    alternativesIn (String.ofList (before ++ (gap ++ '|' :: behind))) =
      alternativesIn (String.ofList before) ++ alternativesIn (String.ofList behind) := by
  have hbar : String.ofList (before ++ (gap ++ '|' :: behind)) =
      String.ofList (before ++ gap) ++ ("|" ++ String.ofList behind) := by
    apply String.toList_inj.mp
    simp
  have hblanks := alternativesIn_blanks before (List.forall_mem_nil _) hgap
  rw [List.nil_append] at hblanks
  rw [hbar, alternativesIn_append, hblanks]

/-- **A line with a bar in it, without the blanks at its ends**, is what stands before the bar, with
blanks perhaps, and what stands from the bar on. -/
theorem exists_trim_bar (before behind : List Char) (hbefore : Text.trim before ≠ []) :
    ∃ gap text, (∀ c ∈ gap, Text.isBlank c = true) ∧ Text.trim ('|' :: behind) = '|' :: text ∧
      Text.trim (before ++ '|' :: behind) = Text.trim before ++ (gap ++ '|' :: text) := by
  obtain ⟨first, gap, hfirst, hblank, hgap⟩ := Text.exists_eq_trim before
  obtain ⟨lead, last, hlast, hlead, hblank'⟩ := Text.exists_eq_trim ('|' :: behind)
  obtain rfl : lead = [] := by
    rcases lead with _ | ⟨c, lead⟩
    · rfl
    · obtain ⟨rfl, -⟩ := List.cons.inj hlast
      exact absurd (hlead '|' List.mem_cons_self) (by decide)
  obtain ⟨text, htext⟩ : ∃ text, Text.trim ('|' :: behind) = '|' :: text := by
    rcases hkept : Text.trim ('|' :: behind) with _ | ⟨c, text⟩
    · rw [Text.trim_eq_nil_iff] at hkept
      exact absurd (List.all_eq_true.mp hkept '|' List.mem_cons_self) (by decide)
    · rw [hkept] at hlast
      obtain ⟨rfl, -⟩ := List.cons.inj hlast
      exact ⟨text, rfl⟩
  refine ⟨gap, text, hgap, htext, ?_⟩
  have hwhole : before ++ '|' :: behind =
      first ++ ((Text.trim before ++ (gap ++ '|' :: text)) ++ last) := by
    rw [htext, List.nil_append] at hlast
    calc before ++ '|' :: behind
        = (first ++ (Text.trim before ++ gap)) ++ ('|' :: text ++ last) := by rw [← hfirst, ← hlast]
      _ = first ++ ((Text.trim before ++ (gap ++ '|' :: text)) ++ last) := by simp
  rw [hwhole, Text.trim_append_append _ hblank hblank']
  refine Text.trim_eq_self (fun c hc => ?_) fun c hc => ?_
  · obtain ⟨d, kept, hkept⟩ := List.exists_cons_of_ne_nil hbefore
    rw [hkept, List.cons_append, List.head?_cons] at hc
    exact Text.isBlank_head?_trim (s := before) (by rwa [hkept, List.head?_cons])
  · have hend : (Text.trim before ++ (gap ++ '|' :: text)).getLast? = ('|' :: text).getLast? := by
      simp [List.getLast?_append, List.getLast?_cons]
    rw [hend, ← htext] at hc
    exact Text.isBlank_getLast?_trim hc

/-- A head that holds no bar and does not end in a blank stands before the first bar of a text, and
before the blanks in front of that bar. -/
theorem exists_eq_append_of_bar {head tail front gap text : List Char}
    (h : head ++ tail = front ++ (gap ++ '|' :: text)) (hbar : '|' ∉ head)
    (hlast : ∀ c ∈ head.getLast?, Text.isBlank c = false)
    (hgap : ∀ c ∈ gap, Text.isBlank c = true) :
    ∃ before, front = head ++ before ∧ tail = before ++ (gap ++ '|' :: text) := by
  obtain ⟨between, hfront, htail⟩ : ∃ between, front ++ gap = head ++ between ∧
      tail = between ++ '|' :: text := by
    rw [← List.append_assoc] at h
    rcases List.append_eq_append_iff.mp h with hcase | ⟨more, hhead, htext⟩
    · exact hcase
    · rcases more with _ | ⟨c, more⟩
      · exact ⟨[], by simpa using hhead.symm, htext.symm⟩
      · obtain ⟨rfl, -⟩ := List.cons.inj htext
        exact absurd (by rw [hhead]; simp) hbar
  rcases List.append_eq_append_iff.mp hfront with ⟨more, hhead, hblank⟩ | ⟨before, hfront, hblank⟩
  · obtain rfl : more = [] := by
      rcases List.eq_nil_or_concat more with hnil | ⟨init, c, rfl⟩
      · exact hnil
      · have hend := hlast c (by rw [hhead]; simp)
        rw [hgap c (by rw [hblank]; simp)] at hend
        exact absurd hend (by simp)
    exact ⟨[], by simpa using hhead.symm, by rw [htail, ← List.append_assoc]; simp [hblank]⟩
  · exact ⟨before, hfront, by rw [htail, hblank, List.append_assoc]⟩

/-- **A production line can be broken before any of its bars.** The part before the bar, without
blanks at its end, is a production line again, and the alternatives of the whole are those of the
two parts. -/
theorem IsProductionLine.exists_break {front gap text : List Char}
    (h : IsProductionLine (String.ofList (front ++ (gap ++ '|' :: text))) A rest)
    (hgap : ∀ c ∈ gap, Text.isBlank c = true) :
    ∃ before, IsProductionLine (String.ofList front) A before ∧
      alternativesIn rest = alternativesIn before ++ alternativesIn (String.ofList text) := by
  obtain ⟨hname, blanks, arrow, hblanks, harrow, hline⟩ := h
  obtain ⟨-, ⟨init, c, hinit, hc⟩, hbar, -⟩ := shape_of_mem_arrows harrow
  have hcut : (A.toList ++ (blanks.toList ++ arrow.toList)) ++ rest.toList =
      front ++ (gap ++ '|' :: text) := by
    have hlist := congrArg String.toList hline
    simpa using hlist.symm
  have hnone : '|' ∉ A.toList ++ (blanks.toList ++ arrow.toList) := by
    simp only [List.mem_append, not_or]
    exact ⟨fun hmem => absurd (hname.not_isMark hmem).1 (by decide),
      fun hmem => absurd (hblanks _ hmem) (by decide), hbar⟩
  have hend : ∀ d ∈ (A.toList ++ (blanks.toList ++ arrow.toList)).getLast?,
      Text.isBlank d = false := by
    intro d hd
    rw [hinit, ← List.append_assoc, ← List.append_assoc, List.getLast?_concat] at hd
    obtain rfl : c = d := by simpa using hd
    exact hc
  obtain ⟨before, hfront, hrest⟩ := exists_eq_append_of_bar hcut hnone hend hgap
  refine ⟨String.ofList before, ⟨hname, blanks, arrow, hblanks, harrow, ?_⟩, ?_⟩
  · apply String.toList_inj.mp
    simp [hfront]
  · rw [← alternativesIn_break before text hgap, ← hrest, String.ofList_toList]

end ShiftReduce.Script

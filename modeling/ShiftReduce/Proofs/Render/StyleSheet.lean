import ShiftReduce.Proofs.Render.Markup

/-!
# Whole pages

A page is *exact* for some tokens (`ShiftReduce.Render.Page.IsExact`) if it is read as these tokens
and is their source. Then every angle bracket and every quotation mark of the page is one of a tag
(`ShiftReduce.Render.Page.IsExact.filter_delimiters`).

A sound piece is exact for its tokens (`ShiftReduce.Render.Markup.IsSound.isExact`). The style sheet
of error pages is written as it is; it holds none of the characters that need an entity
(`ShiftReduce.Render.isPlainText_rules`), so it is read as an element with a text like any other,
and a sound piece below it makes an exact page (`ShiftReduce.Render.Markup.IsSound.isExact_page`).
-/

namespace ShiftReduce.Render

open Page

namespace Page

/-- **A page that is exact for some tokens**: it is read as these tokens, and it is their source. -/
structure IsExact (page : String) (tokens : List Token) : Prop where
  /-- The page is read as the tokens. -/
  read_eq : read page = some tokens
  /-- The page is their source. -/
  eq_write : page = Page.write tokens

theorem isExact_write {tokens : List Token} (h : ∀ t ∈ tokens, t.IsClean) :
    IsExact (Page.write tokens) tokens :=
  ⟨read_write h, rfl⟩

/-- The characters that begin a tag, end it, or stand around the value of an attribute. -/
def delimiters : List Char := ['<', '>', '"']

/-- **Every delimiter of an exact page is one of its tags.** -/
theorem IsExact.filter_delimiters {page : String} {tokens : List Token} (h : IsExact page tokens) :
    page.toList.filter (· ∈ delimiters) =
      ((tags tokens).flatMap Token.write).filter (· ∈ delimiters) := by
  rw [h.eq_write, Page.write, String.toList_ofList]
  clear h
  induction tokens with
  | nil => rfl
  | cons t tokens ih =>
    rw [List.flatMap_cons, List.filter_append, ih]
    cases t with
    | char c =>
      have hnone : (Token.char c).write.filter (· ∈ delimiters) = [] :=
        List.filter_eq_nil_iff.mpr fun d hd hdelimiter => by
          have hdelimiter : d ∈ delimiters := of_decide_eq_true hdelimiter
          simp only [delimiters, List.mem_cons, List.not_mem_nil, or_false] at hdelimiter
          refine Text.Entity.notMem_entityOr (Or.inl rfl) ?_ ?_ hd <;>
            rcases hdelimiter with rfl | rfl | rfl <;> decide
      rw [hnone, tags_char, List.nil_append]
    | tag name attributes => rw [tags_tag, List.flatMap_cons, List.filter_append]

end Page

theorem Markup.IsSound.write_eq_write {m : Markup} (h : m.IsSound) :
    m.write = Page.write m.tokens :=
  String.toList_inj.mp (by rw [h.write_eq, Page.write, String.toList_ofList])

/-- **A sound piece is exact for its tokens.** -/
theorem Markup.IsSound.isExact {m : Markup} (h : m.IsSound) : IsExact m.write m.tokens := by
  rw [h.write_eq_write]
  exact isExact_write h.isClean

/-! ### Texts without marks -/

/-- **A plain text**: it holds none of the characters that need an entity. -/
def IsPlainText (s : String) : Prop :=
  Text.Avoids Text.Entity.marks s.toList

instance (s : String) : Decidable (IsPlainText s) :=
  inferInstanceAs (Decidable (Text.Avoids Text.Entity.marks s.toList))

theorem IsPlainText.append {s t : String} (hs : IsPlainText s) (ht : IsPlainText t) :
    IsPlainText (s ++ t) := by
  intro c hc
  rw [String.toList_append, List.mem_append] at hc
  exact hc.elim (hs c) (ht c)

theorem isPlainText_join {l : List String} (h : ∀ s ∈ l, IsPlainText s) :
    IsPlainText (String.join l) := by
  intro c hc
  rw [String.toList_join, List.mem_flatMap] at hc
  obtain ⟨s, hs, hc⟩ := hc
  exact h s hs c hc

theorem isPlainText_lines {l : List String} (h : ∀ s ∈ l, IsPlainText s) :
    IsPlainText ("\n".intercalate l) :=
  Text.avoids_intercalate (by decide) h

/-- A plain text is written as it is. -/
theorem IsPlainText.flatMap_write {s : String} (h : IsPlainText s) :
    (s.toList.map Token.char).flatMap Token.write = s.toList := by
  have hself : ∀ c ∈ s.toList, (Token.char c).write = [c] := fun c hc =>
    Text.Entity.entityOr_of_notMem (h c hc)
  rw [List.flatMap_map, List.flatMap_congr hself, List.flatMap_singleton']

/-! ### The style sheet -/

/-- The rules of the style sheet as they are written. -/
def rulesText : String :=
  "\n".intercalate (styleRules.map writeRule)

/-- **The rules of the style sheet hold no marks.** -/
theorem isPlainText_rules : IsPlainText rulesText := by
  have hparts : ∀ rule ∈ styleRules, IsPlainText rule.1 ∧
      ∀ e ∈ rule.2, IsPlainText e.1 ∧ IsPlainText e.2 := by decide +kernel
  refine isPlainText_lines fun s hs => ?_
  obtain ⟨rule, hrule, rfl⟩ := List.mem_map.mp hs
  obtain ⟨hselector, hvalues⟩ := hparts rule hrule
  refine ((hselector.append (by decide)).append
    (isPlainText_join fun s hs => ?_)).append (by decide)
  obtain ⟨e, he, rfl⟩ := List.mem_map.mp hs
  obtain ⟨hproperty, hvalue⟩ := hvalues e he
  have hfront : IsPlainText ("    " ++ e.1) := IsPlainText.append (by decide) hproperty
  exact ((hfront.append (by decide)).append hvalue).append (by decide)

/-- The tokens of the style sheet and the line break below it, if it is wanted. -/
def Appearance.styleTokens (a : Appearance) : List Token :=
  if a.inlineStyles then
    .char '\n' :: .tag "style" [] :: (("\n" ++ rulesText).toList.map Token.char
      ++ [closing "style", .char '\n', .char '\n'])
  else []

variable {a : Appearance} {m : Markup} {name : String}

theorem Appearance.isClean_styleTokens : ∀ t ∈ a.styleTokens, t.IsClean := by
  intro t ht
  rw [styleTokens] at ht
  split at ht
  · simp only [List.mem_cons, List.mem_append, List.mem_map, List.not_mem_nil, or_false] at ht
    rcases ht with rfl | rfl | ⟨c, -, rfl⟩ | rfl | rfl | rfl
    · trivial
    · exact ⟨by decide, by simp, by simp⟩
    · trivial
    · exact ⟨by decide, by simp, by simp⟩
    · trivial
    · trivial
  · exact absurd ht List.not_mem_nil

/-- **A sound piece below the style sheet makes an exact page.** -/
theorem Markup.IsSound.isExact_page (h : m.IsSound) :
    IsExact (page (a.styles ++ [m])) (a.styleTokens ++ m.tokens) := by
  have hclean : ∀ t ∈ a.styleTokens ++ m.tokens, t.IsClean := fun t ht =>
    (List.mem_append.mp ht).elim (Appearance.isClean_styleTokens t) (h.isClean t)
  have hwrite : page (a.styles ++ [m]) = Page.write (a.styleTokens ++ m.tokens) := by
    rw [Appearance.styles, Appearance.styleTokens]
    split
    · have hrules : IsPlainText ("\n" ++ rulesText) :=
        IsPlainText.append (by decide) isPlainText_rules
      have hends : [closing "style", .char '\n', .char '\n'].flatMap Token.write =
          "</style>\n\n".toList := by decide
      have hbreak : (Token.char '\n').write = ['\n'] := by decide
      have hopen : (Token.tag "style" []).write = "<style>".toList := by decide
      refine String.toList_inj.mp ?_
      rw [List.singleton_append, page, writeAll, writeAll, writeAll, Text.toList_intercalate_cons,
        styleSheet, write, List.flatMap_singleton, h.write_eq, Page.write, String.toList_ofList,
        List.flatMap_append, List.flatMap_cons, List.flatMap_cons, List.flatMap_append,
        hrules.flatMap_write, hends, hbreak, hopen, rulesText]
      simp
    · rw [List.nil_append, List.nil_append, page, writeAll, writeAll, String.intercalate_singleton,
        h.write_eq_write]
  rw [hwrite]
  exact isExact_write hclean

/-- The style sheet holds no element of any other name. -/
theorem elements_styleTokens_append (hname : name ≠ "style") (hclosing : name ≠ "/style")
    (t : List Token) : elements name (a.styleTokens ++ t) = elements name t := by
  refine elements_append_of_forall fun attributes ht => ?_
  rw [Appearance.styleTokens] at ht
  split at ht
  · have hslash : "/" ++ "style" = "/style" := by decide
    simp only [List.mem_cons, List.mem_append, List.mem_map, closing, hslash, Token.tag.injEq,
      reduceCtorEq, and_false, exists_false, List.not_mem_nil, hname, hclosing, false_and,
      or_self] at ht
  · exact absurd ht List.not_mem_nil

end ShiftReduce.Render

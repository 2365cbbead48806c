import Mathlib.Data.List.TakeWhile
import ShiftReduce.Render.Appearance
import ShiftReduce.Proofs.Render.Page
import ShiftReduce.Proofs.Text.Joined

/-!
# What is read of a piece of a page

A piece of a page is a tree of elements and texts. Its tokens (`ShiftReduce.Render.Markup.tokens`)
are the tags of its elements and the characters of its texts, and a line break in front of every
child and of the closing tag where the children stand on lines of their own. The source of a piece
with clean tags is the source of its tokens (`ShiftReduce.Render.Markup.IsSound.write_eq`), so these
are what is read of it.

From the tokens of a page its tags are told (`ShiftReduce.Render.Page.tags`) and, by name, its
elements with what is in them (`ShiftReduce.Render.Page.elements`). Those of a piece are the ones of
its tree (`ShiftReduce.Render.Markup.tags_tokens_element`,
`ShiftReduce.Render.Markup.elements_tokens_append`).
-/

namespace ShiftReduce.Render

namespace Page

/-! ### Tags and elements -/

/-- The tags of a sequence of tokens. -/
def tags (tokens : List Token) : List Token :=
  tokens.filter Token.isTag

/-- The text of a sequence of tokens, without the tags. -/
def textOf (tokens : List Token) : String :=
  String.ofList (tokens.filterMap Token.char?)

/-- An element of a page. -/
structure Element where
  /-- The attributes of its opening tag. -/
  attributes : List (String × String)
  /-- What stands between its tags. -/
  content : List Token
deriving DecidableEq

/-- The text of an element, without the tags in it. -/
def Element.text (e : Element) : String :=
  textOf e.content

/-- The value of an attribute of an element. -/
def Element.attribute? (e : Element) (name : String) : Option String :=
  e.attributes.lookup name

/-- The closing tag of the elements of a name. -/
def closing (name : String) : Token :=
  .tag ("/" ++ name) []

/-- The elements of a name, in the order in which they begin. Each goes on to the next closing tag
of its name. -/
def elements (name : String) : List Token → List Element
  | .tag n attributes :: rest =>
    if n = name then ⟨attributes, rest.takeWhile (· ≠ closing name)⟩ :: elements name rest
    else elements name rest
  | .char _ :: rest => elements name rest
  | [] => []

/-- The text of an element and its classes. -/
def Element.shown (e : Element) : String × Option String :=
  (e.text, e.attribute? "class")

/-- The texts of the elements of a name. -/
def texts (name : String) (tokens : List Token) : List String :=
  (elements name tokens).map Element.text

variable {name : String} {s t : List Token}

@[simp] theorem tags_append : tags (s ++ t) = tags s ++ tags t := List.filter_append ..

@[simp] theorem tags_nil : tags [] = [] := rfl

@[simp] theorem tags_char (c : Char) : tags (.char c :: s) = tags s := rfl

@[simp] theorem tags_tag (attributes : List (String × String)) :
    tags (.tag name attributes :: s) = .tag name attributes :: tags s := rfl

@[simp] theorem tags_map_char (l : List Char) : tags (l.map .char) = [] := by
  simp [tags, Token.isTag]

theorem textOf_append : textOf (s ++ t) = textOf s ++ textOf t := by
  simp [textOf]

theorem textOf_map_char (u : String) : textOf (u.toList.map .char) = u := by
  simp [textOf, Token.char?, Function.comp_def]

theorem elements_map_char_append (name : String) (l : List Char) (t : List Token) :
    elements name (l.map .char ++ t) = elements name t := by
  induction l with
  | nil => rfl
  | cons c l ih => exact ih

/-- Tags of other names begin no element of this name. -/
theorem elements_append_of_forall (h : ∀ attributes, .tag name attributes ∉ s) :
    elements name (s ++ t) = elements name t := by
  induction s with
  | nil => rfl
  | cons first s ih =>
    have hs := ih fun attributes hmem => h attributes (List.mem_cons_of_mem _ hmem)
    cases first with
    | char c => exact hs
    | tag n attributes =>
      have hne : n ≠ name := fun heq => h attributes (heq ▸ List.mem_cons_self)
      rw [List.cons_append, elements, if_neg hne, hs]

end Page

namespace Markup

open Page Text

/-- What stands in front of every child of an element and of its closing tag. -/
def seam : Layout → List Token
  | .inline => []
  | .lines => [.char '\n']

mutual

/-- The tokens of a piece. -/
def tokens : Markup → List Token
  | text s => s.toList.map .char
  | verbatim s => s.toList.map .char
  | element tag attributes layout children =>
    .tag tag attributes :: (tokensAll layout children ++ (seam layout ++ [closing tag]))

/-- The tokens of the children of an element. -/
def tokensAll (layout : Layout) : List Markup → List Token
  | [] => []
  | m :: rest => seam layout ++ (tokens m ++ tokensAll layout rest)

end

/-- **A sound piece**: its tags are clean, and no part of it is written as it is. -/
inductive IsSound : Markup → Prop
  /-- A text is sound, whatever it holds. -/
  | text (s : String) : IsSound (.text s)
  /-- An element is sound if its tag is clean and its children are sound. -/
  | element {tag : String} {attributes : List (String × String)} {layout : Layout}
      {children : List Markup} : IsCleanTag tag attributes → (∀ m ∈ children, IsSound m) →
      IsSound (.element tag attributes layout children)

variable {tag name : String} {attributes : List (String × String)} {layout : Layout}
  {children : List Markup} {m : Markup}

theorem isCleanTag_cons {key value : String} (htag : IsCleanTag tag attributes)
    (hkey : Text.Avoids [' ', '"', '>', '='] key.toList) (hvalue : '"' ∉ value.toList) :
    IsCleanTag tag ((key, value) :: attributes) where
  name_clean := htag.name_clean
  attribute_clean := List.forall_mem_cons.mpr ⟨hkey, htag.attribute_clean⟩
  value_clean := List.forall_mem_cons.mpr ⟨hvalue, htag.value_clean⟩

theorem isSound_block (htag : IsCleanTag tag attributes) (h : ∀ m ∈ children, m.IsSound) :
    (block tag attributes children).IsSound :=
  .element htag h

theorem isSound_inline (htag : IsCleanTag tag attributes) (h : ∀ m ∈ children, m.IsSound) :
    (inline tag attributes children).IsSound :=
  .element htag h

theorem isSound_textIn (htag : IsCleanTag tag attributes) (s : String) :
    (textIn tag attributes s).IsSound :=
  .element htag fun _ hm => List.mem_singleton.mp hm ▸ .text s

/-- Induction over the pieces of a page: what holds of an element may be shown from what holds of
its children. -/
theorem induction {motive : Markup → Prop} (text : ∀ s, motive (.text s))
    (verbatim : ∀ s, motive (.verbatim s))
    (element : ∀ tag attributes layout children, (∀ m ∈ children, motive m) →
      motive (.element tag attributes layout children)) : ∀ m, motive m
  | .text s => text s
  | .verbatim s => verbatim s
  | .element tag attributes layout children =>
    element tag attributes layout children fun m _ => induction text verbatim element m

theorem tokensAll_eq (layout : Layout) (l : List Markup) :
    tokensAll layout l = l.flatMap fun m => seam layout ++ m.tokens := by
  induction l with
  | nil => rw [tokensAll, List.flatMap_nil]
  | cons m l ih => rw [tokensAll, ih, List.flatMap_cons, List.append_assoc]

theorem writeAll_eq (l : List Markup) : writeAll l = l.map write := by
  induction l with
  | nil => rw [writeAll, List.map_nil]
  | cons m l ih => rw [writeAll, ih, List.map_cons]

/-- The tokens of an element. -/
theorem tokens_element : (element tag attributes layout children).tokens =
    .tag tag attributes :: ((children.flatMap fun m => seam layout ++ m.tokens) ++
      (seam layout ++ [closing tag])) := by
  rw [tokens, tokensAll_eq]

/-! ### The source of a piece -/

theorem toList_openTag : (openTag tag attributes).toList = (Token.tag tag attributes).write := by
  have hattribute : ∀ a : String × String, (s!" {a.1}=\"{a.2}\"").toList =
      ' ' :: (a.1.toList ++ '=' :: '"' :: (a.2.toList ++ ['"'])) := fun a => by
    change (" " ++ a.1 ++ "=\"" ++ a.2 ++ "\"").toList = _
    simp
  rw [openTag, String.toList_append, String.toList_append, String.toList_append,
    String.toList_join, List.flatMap_map, List.flatMap_congr fun a _ => hattribute a]
  simp [Token.write, tagSource]

theorem toList_closeTag : (closeTag tag).toList = (closing tag).write := by
  simp [closeTag, closing, Token.write, tagSource]

/-- **The source of a sound piece is the source of its tokens.** -/
theorem IsSound.write_eq (h : m.IsSound) : m.write.toList = m.tokens.flatMap Token.write := by
  induction h with
  | text s =>
    simp [write, tokens, Text.Entity.substitute, List.flatMap_map, Token.write]
  | @element tag attributes layout children _ _ ih =>
    have hchildren : ∀ front : List Char,
        (children.flatMap fun m => front ++ m.write.toList) =
          children.flatMap fun m => front ++ m.tokens.flatMap Token.write := fun front =>
      List.flatMap_congr fun m hm => by rw [ih m hm]
    rw [tokens_element, List.flatMap_cons, List.flatMap_append, List.flatMap_append,
      List.flatMap_singleton, List.flatMap_assoc]
    simp only [List.flatMap_append]
    cases layout with
    | inline =>
      rw [write, writeAll_eq, String.toList_append, String.toList_append, String.toList_join,
        toList_openTag, toList_closeTag, List.flatMap_map, List.append_assoc]
      exact congrArg (fun s => _ ++ (s ++ _)) (hchildren [])
    | lines =>
      rw [write, writeAll_eq, List.cons_append, toList_intercalate_cons, toList_openTag,
        List.flatMap_append, List.flatMap_map, List.flatMap_singleton, toList_closeTag]
      exact congrArg (fun s => _ ++ (s ++ _)) (hchildren ['\n'])

/-- **The tokens of a sound piece are clean.** -/
theorem IsSound.isClean (h : m.IsSound) : ∀ t ∈ m.tokens, t.IsClean := by
  have hseam : ∀ layout, ∀ t ∈ seam layout, t.IsClean := by
    rintro (_ | _) t ht
    · exact absurd ht List.not_mem_nil
    · rw [List.mem_singleton.mp ht]
      trivial
  induction h with
  | text s =>
    intro t ht
    obtain ⟨c, -, rfl⟩ := List.mem_map.mp (by simpa [tokens] using ht)
    trivial
  | @element tag attributes layout children hclean _ ih =>
    have hclosing : (closing tag).IsClean := by
      refine ⟨fun c hc => ?_, by simp, by simp⟩
      rw [String.toList_append, List.mem_append] at hc
      rcases hc with hc | hc
      · rw [List.mem_singleton.mp hc]
        decide
      · exact hclean.name_clean c hc
    rw [tokens_element]
    intro t ht
    simp only [List.mem_cons, List.mem_append, List.mem_flatMap, List.not_mem_nil, or_false] at ht
    rcases ht with rfl | ⟨m, hm, ht | ht⟩ | ht | rfl
    · exact hclean
    · exact hseam layout t ht
    · exact ih m hm t ht
    · exact hseam layout t ht
    · exact hclosing

/-! ### The tags of a piece -/

@[simp] theorem tags_tokens_text (s : String) : tags (text s).tokens = [] := by
  rw [tokens, tags_map_char]

/-- **The tags of an element** are its own and those of its children between them, however it is
laid out. -/
@[simp] theorem tags_tokens_element : tags (element tag attributes layout children).tokens =
    .tag tag attributes :: ((children.flatMap fun m => tags m.tokens) ++ [closing tag]) := by
  have hseam : tags (seam layout) = [] := by cases layout <;> rfl
  have hchildren : ∀ l : List Markup, tags (l.flatMap fun m => seam layout ++ m.tokens) =
      l.flatMap fun m => tags m.tokens := fun l => by
    induction l with
    | nil => rfl
    | cons m l ih => simp only [List.flatMap_cons, tags_append, ih, hseam, List.nil_append]
  rw [tokens_element, tags_tag, tags_append, tags_append, hchildren, hseam]
  rfl

@[simp] theorem tags_tokens_block : tags (block tag attributes children).tokens =
    .tag tag attributes :: ((children.flatMap fun m => tags m.tokens) ++ [closing tag]) :=
  tags_tokens_element

@[simp] theorem tags_tokens_inline : tags (inline tag attributes children).tokens =
    .tag tag attributes :: ((children.flatMap fun m => tags m.tokens) ++ [closing tag]) :=
  tags_tokens_element

@[simp] theorem tags_tokens_textIn (s : String) : tags (textIn tag attributes s).tokens =
    [.tag tag attributes, closing tag] := by
  simp [textIn]

/-- Pieces of one shape have the same tags one after the other if those of one shape have the same
tags. -/
theorem flatMap_tags_congr {α α' σ : Type} (shape : α → σ) (shape' : α' → σ) {f : α → Markup}
    {f' : α' → Markup} (h : ∀ x y, shape x = shape' y → tags (f x).tokens = tags (f' y).tokens) :
    ∀ {l : List α} {l' : List α'}, l.map shape = l'.map shape' →
      ((l.map f).flatMap fun m => tags m.tokens) = (l'.map f').flatMap fun m => tags m.tokens
  | [], [], _ => rfl
  | x :: l, y :: l', hmap => by
    obtain ⟨hhead, htail⟩ := List.cons.inj hmap
    rw [List.map_cons, List.map_cons, List.flatMap_cons, List.flatMap_cons, h x y hhead,
      flatMap_tags_congr shape shape' h htail]

/-- As many pieces that have the same tags each have the same tags one after the other. -/
theorem flatMap_tags_congr_of_length {α α' : Type} {f : α → Markup} {f' : α' → Markup}
    (h : ∀ x y, tags (f x).tokens = tags (f' y).tokens) {l : List α} {l' : List α'}
    (hlength : l.length = l'.length) :
    ((l.map f).flatMap fun m => tags m.tokens) = (l'.map f').flatMap fun m => tags m.tokens :=
  flatMap_tags_congr (fun _ => ()) (fun _ => ()) (fun x y _ => h x y) (by simp [hlength])

/-! ### The elements of a piece -/

/-- What stands between the tags of an element. -/
def contentOf (layout : Layout) (children : List Markup) : List Token :=
  (children.flatMap fun m => seam layout ++ m.tokens) ++ seam layout

/-- A name of elements, and not of closing tags. -/
def IsElementName (name : String) : Prop :=
  name.toList.head? ≠ some '/'

instance (name : String) : Decidable (IsElementName name) :=
  inferInstanceAs (Decidable (name.toList.head? ≠ some '/'))

theorem IsElementName.closing_ne (h : IsElementName name) (tag : String) : "/" ++ tag ≠ name := by
  rintro rfl
  exact h (by simp)

theorem elements_seam_append (name : String) (layout : Layout) (t : List Token) :
    elements name (seam layout ++ t) = elements name t := by
  cases layout <;> rfl

theorem elements_closing (h : IsElementName name) (tag : String) (t : List Token) :
    elements name (closing tag :: t) = elements name t := by
  rw [closing, elements, if_neg (h.closing_ne tag)]

theorem takeWhile_append_cons_of_neg {α : Type} {p : α → Bool} {a : α} (h : p a = false)
    (l l' : List α) : (l ++ a :: l').takeWhile p = l.takeWhile p := by
  induction l with
  | nil => simp [h]
  | cons b l ih => by_cases hb : p b = true <;> simp [hb, ih]

theorem elements_text (name s : String) : elements name (text s).tokens = [] := by
  have hnone := elements_map_char_append name s.toList []
  rwa [List.append_nil] at hnone

/-- The elements of several pieces, if those of each end in it. -/
theorem elements_flatMap_append {l : List Markup} (layout : Layout) (t : List Token)
    (h : ∀ m ∈ l, ∀ t, elements name (m.tokens ++ t) = elements name m.tokens ++ elements name t) :
    elements name ((l.flatMap fun m => seam layout ++ m.tokens) ++ t) =
      (l.flatMap fun m => elements name m.tokens) ++ elements name t := by
  induction l with
  | nil => rfl
  | cons m l ih =>
    obtain ⟨hm, hl⟩ := List.forall_mem_cons.mp h
    rw [List.flatMap_cons, List.flatMap_cons, List.append_assoc, List.append_assoc,
      elements_seam_append, hm, ih hl, List.append_assoc]

section Elements

variable (hname : IsElementName name)

include hname

theorem elements_element_append (t : List Token)
    (h : ∀ m ∈ children, ∀ t,
      elements name (m.tokens ++ t) = elements name m.tokens ++ elements name t) :
    elements name ((element tag attributes layout children).tokens ++ t) =
      (if tag = name then
        [⟨attributes, (contentOf layout children).takeWhile (· ≠ closing name)⟩] else []) ++
      ((children.flatMap fun m => elements name m.tokens) ++ elements name t) := by
  have hrest : elements name (contentOf layout children ++ closing tag :: t) =
      (children.flatMap fun m => elements name m.tokens) ++ elements name t := by
    rw [contentOf, List.append_assoc, elements_flatMap_append layout _ h, elements_seam_append,
      elements_closing hname]
  have htokens : (element tag attributes layout children).tokens ++ t =
      .tag tag attributes :: (contentOf layout children ++ closing tag :: t) := by
    rw [tokens_element, contentOf]
    simp
  rw [htokens, elements, hrest]
  by_cases htag : tag = name
  · subst htag
    rw [if_pos rfl, if_pos rfl, takeWhile_append_cons_of_neg (by simp)]
    rfl
  · rw [if_neg htag, if_neg htag, List.nil_append]

/-- **The elements of a piece end in it.** -/
theorem elements_tokens_append (m : Markup) (t : List Token) :
    elements name (m.tokens ++ t) = elements name m.tokens ++ elements name t := by
  induction m using Markup.induction generalizing t with
  | text s =>
    rw [elements_text, tokens, elements_map_char_append]
    rfl
  | verbatim s =>
    have hnone := elements_text name s
    rw [tokens] at hnone
    rw [tokens, hnone, elements_map_char_append]
    rfl
  | element tag attributes layout children ih =>
    have hself : elements name ((element tag attributes layout children).tokens ++ []) = _ :=
      elements_element_append hname [] ih
    rw [List.append_nil] at hself
    rw [elements_element_append hname t ih, hself, elements, List.append_nil, List.append_assoc]

/-- **The elements of an element**: itself, if it has the name, and those of its children. -/
theorem elements_element : elements name (element tag attributes layout children).tokens =
    (if tag = name then
      [⟨attributes, (contentOf layout children).takeWhile (· ≠ closing name)⟩] else []) ++
    children.flatMap fun m => elements name m.tokens := by
  have hall : elements name ((element tag attributes layout children).tokens ++ []) = _ :=
    elements_element_append hname [] fun m _ => elements_tokens_append hname m
  rwa [List.append_nil, elements, List.append_nil] at hall

/-- The elements in what stands between the tags of an element. -/
theorem elements_contentOf (layout : Layout) (children : List Markup) :
    elements name (contentOf layout children) =
      children.flatMap fun m => elements name m.tokens := by
  have hseam := elements_seam_append name layout []
  rw [List.append_nil] at hseam
  rw [contentOf, elements_flatMap_append layout _ fun m _ => elements_tokens_append hname m, hseam,
    elements, List.append_nil]

theorem elements_element_of_ne (h : tag ≠ name) :
    elements name (element tag attributes layout children).tokens =
      children.flatMap fun m => elements name m.tokens := by
  rw [elements_element hname, if_neg h, List.nil_append]

end Elements

/-! ### Pieces without elements of a name -/

/-- **A piece without elements of a name.** -/
inductive IsFree (name : String) : Markup → Prop
  /-- A text has no elements. -/
  | text (s : String) : IsFree name (.text s)
  /-- An element of another name has none of this name if its children have none. -/
  | element {tag : String} {attributes : List (String × String)} {layout : Layout}
      {children : List Markup} : IsElementName tag → tag ≠ name → (∀ m ∈ children, IsFree name m) →
      IsFree name (.element tag attributes layout children)

theorem isFree_block (htag : IsElementName tag) (hne : tag ≠ name)
    (h : ∀ m ∈ children, IsFree name m) : IsFree name (block tag attributes children) :=
  .element htag hne h

theorem isFree_textIn (htag : IsElementName tag) (hne : tag ≠ name) (s : String) :
    IsFree name (textIn tag attributes s) :=
  .element htag hne fun _ hm => List.mem_singleton.mp hm ▸ .text s

theorem IsFree.closing_notMem (h : IsFree name m) : closing name ∉ m.tokens := by
  suffices htags : closing name ∉ tags m.tokens from fun hin =>
    htags (List.mem_filter.mpr ⟨hin, rfl⟩)
  induction h with
  | text s => simp
  | @element tag attributes layout children htag hne _ ih =>
    rw [tags_tokens_element, List.mem_cons, List.mem_append, List.mem_flatMap, List.mem_singleton]
    rintro (hopening | ⟨m, hm, hin⟩ | hclosing)
    · exact htag.closing_ne name (Token.tag.inj hopening).1
    · exact ih m hm hin
    · have hsame := (Token.tag.inj hclosing).1
      exact hne (String.append_right_inj "/" |>.mp hsame).symm

theorem IsFree.elements_eq (hname : IsElementName name) (h : IsFree name m) :
    elements name m.tokens = [] := by
  induction h with
  | text s => exact elements_text name s
  | element _ hne _ ih =>
    rw [elements_element_of_ne hname hne]
    exact List.flatMap_eq_nil_iff.mpr ih

/-- **An element in which there is no other one of its name** is read as the whole of it. -/
theorem elements_of_isFree (hname : IsElementName name) (h : ∀ m ∈ children, IsFree name m) :
    elements name (element name attributes layout children).tokens =
      [⟨attributes, contentOf layout children⟩] := by
  have hcontent : (contentOf layout children).takeWhile (· ≠ closing name) =
      contentOf layout children := by
    have hseam : closing name ∉ seam layout := by cases layout <;> simp [seam, closing]
    rw [List.takeWhile_eq_self_iff]
    intro t ht
    refine decide_eq_true fun heq => ?_
    subst heq
    simp only [contentOf, List.mem_append, List.mem_flatMap] at ht
    rcases ht with ⟨m, hm, hin | hin⟩ | hin
    · exact hseam hin
    · exact (h m hm).closing_notMem hin
    · exact hseam hin
  rw [elements_element hname, if_pos rfl, hcontent,
    List.flatMap_eq_nil_iff.mpr fun m hm => (h m hm).elements_eq hname]
  rfl

/-! ### The text of a piece -/

theorem textOf_text (s : String) : textOf (text s).tokens = s := by
  rw [tokens, textOf_map_char]

/-- The text of what stands between the tags of an element on one line. -/
theorem textOf_contentOf_inline (children : List Markup) :
    textOf (contentOf .inline children) = String.join (children.map fun m => textOf m.tokens) := by
  rw [contentOf, seam, List.append_nil]
  induction children with
  | nil => rfl
  | cons m children ih =>
    rw [List.flatMap_cons, List.nil_append, textOf_append, ih, List.map_cons, String.join_cons]

theorem textOf_textIn (s : String) : textOf (textIn tag attributes s).tokens = s := by
  have htokens : (textIn tag attributes s).tokens =
      [.tag tag attributes] ++ (s.toList.map .char ++ [closing tag]) := by
    simp [textIn, inline, tokens_element, tokens, seam]
  rw [htokens, textOf_append, textOf_append, textOf_map_char]
  exact String.empty_append.trans String.append_empty

theorem elements_textIn (hname : IsElementName name) (s : String) :
    elements name (textIn tag attributes s).tokens =
      if tag = name then [⟨attributes, s.toList.map .char⟩] else [] := by
  by_cases htag : tag = name
  · subst htag
    rw [if_pos rfl, textIn, inline, elements_of_isFree hname (by simpa using IsFree.text s)]
    simp [contentOf, seam, tokens]
  · rw [if_neg htag, textIn, inline, elements_element_of_ne hname htag, List.flatMap_singleton,
      elements_text]

/-! ### The texts of the elements of a piece -/

theorem IsFree.texts_eq (hname : IsElementName name) (h : IsFree name m) :
    texts name m.tokens = [] := by
  rw [texts, h.elements_eq hname]
  rfl

theorem texts_textIn (hname : IsElementName name) (s : String) :
    texts name (textIn name attributes s).tokens = [s] := by
  rw [texts, elements_textIn hname, if_pos rfl]
  exact congrArg (· :: []) (textOf_map_char s)

/-- **The texts of an element of another name** are those of its children. -/
theorem texts_element_of_ne (hname : IsElementName name) (h : tag ≠ name) :
    texts name (element tag attributes layout children).tokens =
      children.flatMap fun m => texts name m.tokens := by
  rw [texts, elements_element_of_ne hname h, List.map_flatMap]
  rfl

/-- **The text of an element on one line** is that of its children. -/
theorem texts_inline_of_isFree (hname : IsElementName name) (h : ∀ m ∈ children, IsFree name m) :
    texts name (inline name attributes children).tokens =
      [String.join (children.map fun m => textOf m.tokens)] := by
  rw [texts, inline, elements_of_isFree hname h, ← textOf_contentOf_inline]
  rfl

end Markup

end ShiftReduce.Render

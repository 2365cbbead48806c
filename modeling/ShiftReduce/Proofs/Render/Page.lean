import Mathlib.Data.List.Basic
import ShiftReduce.Proofs.Text.Entity
import ShiftReduce.Proofs.Text.Scanner

/-!
# Reading pages

A page is read as a sequence of *tokens*: tags with their attributes, and single characters, for
which an entity may stand (`ShiftReduce.Render.Page.read`). The reader is strict: outside of tags it
accepts the five characters that need an entity as entities only. In a tag it takes everything
between quotation marks for the value of an attribute.

A sequence of tokens has one source (`ShiftReduce.Render.Page.write`), in which every angle bracket
and every quotation mark belongs to a tag. It is read as the sequence that it was written from, if
the tags are *clean*: then no name holds a character that ends it and no value a quotation mark
(`ShiftReduce.Render.Page.read_write`).
-/

namespace ShiftReduce.Render.Page

open Text

/-- What a page is made of. -/
inductive Token where
  /-- A character, whether it stands for itself or an entity stands for it. -/
  | char (c : Char)
  /-- A tag. The name of a closing tag begins with a slash. -/
  | tag (name : String) (attributes : List (String × String))
deriving DecidableEq

/-- Whether a token is a tag. -/
def Token.isTag : Token → Bool
  | char _ => false
  | tag _ _ => true

/-- The character that a token is. -/
def Token.char? : Token → Option Char
  | char c => some c
  | tag _ _ => none

/-! ### The reader -/

/-- The attributes in a tag that is cut at its quotation marks. -/
def attributesOf : List (List Char) → List (String × String)
  | name :: value :: rest =>
    (String.ofList (name.filter (· ∉ [' ', '='])), String.ofList value) :: attributesOf rest
  | _ => []

/-- The tag with the given text between the angle brackets: a name and, from the first space on, the
attributes. -/
def Token.ofSource (source : List Char) : Token :=
  .tag (String.ofList (source.takeWhile (· ≠ ' ')))
    (attributesOf ((source.dropWhile (· ≠ ' ')).splitOn '"'))

/-- Where a reader of pages is. -/
inductive Mode where
  /-- Outside of tags and entities. -/
  | text
  /-- In an entity, of whose name this much has been read. -/
  | entity (name : List Char)
  /-- In a tag of which this much has been read, perhaps between quotation marks. -/
  | tag (quoted : Bool) (source : List Char)

/-- What a reader of pages does at a character. -/
def step : Mode → Char → Option (List Token × Mode)
  | .text, c =>
    if c = '<' then some ([], .tag false [])
    else if c = '&' then some ([], .entity [])
    else if c ∈ Entity.marks then none
    else some ([.char c], .text)
  | .entity name, c =>
    if c = ';' then
      (Entity.charOf? Entity.pageApostrophe name).map fun c => ([.char c], .text)
    else some ([], .entity (name ++ [c]))
  | .tag quoted source, c =>
    if c = '"' then some ([], .tag (!quoted) (source ++ [c]))
    else if c = '>' ∧ quoted = false then some ([.ofSource source], .text)
    else some ([], .tag quoted (source ++ [c]))

/-- The reader of pages. A page ends outside of tags and entities. -/
def reader : Scanner Mode Token where
  start := .text
  step := step
  finish
    | .text => some []
    | _ => none

/-- The tokens of a page. -/
def read (page : String) : Option (List Token) :=
  reader.read page.toList

/-! ### The source of tokens -/

/-- What stands between the angle brackets of a tag. -/
def tagSource (name : String) (attributes : List (String × String)) : List Char :=
  name.toList ++ attributes.flatMap fun a =>
    ' ' :: (a.1.toList ++ '=' :: '"' :: (a.2.toList ++ ['"']))

/-- The source of a token. -/
def Token.write : Token → List Char
  | char c => Entity.entityOr Entity.pageApostrophe c
  | tag name attributes => '<' :: (tagSource name attributes ++ ['>'])

/-- The source of a sequence of tokens. -/
def write (tokens : List Token) : String :=
  String.ofList (tokens.flatMap Token.write)

/-- **A clean tag**: its names hold no character that ends a name, and the values of its attributes
no quotation mark. -/
structure IsCleanTag (name : String) (attributes : List (String × String)) : Prop where
  /-- The name of the tag is one. -/
  name_clean : Avoids [' ', '"', '>'] name.toList
  /-- The names of the attributes are some. -/
  attribute_clean : ∀ a ∈ attributes, Avoids [' ', '"', '>', '='] a.1.toList
  /-- The values of the attributes hold no quotation mark. -/
  value_clean : ∀ a ∈ attributes, '"' ∉ a.2.toList

instance (name : String) (attributes : List (String × String)) :
    Decidable (IsCleanTag name attributes) :=
  decidable_of_iff
    (Avoids [' ', '"', '>'] name.toList ∧
      (∀ a ∈ attributes, Avoids [' ', '"', '>', '='] a.1.toList) ∧
      ∀ a ∈ attributes, '"' ∉ a.2.toList)
    ⟨fun ⟨hname, hkeys, hvalues⟩ => ⟨hname, hkeys, hvalues⟩,
      fun ⟨hname, hkeys, hvalues⟩ => ⟨hname, hkeys, hvalues⟩⟩

/-- A character is clean, and a tag if it is a clean one. -/
def Token.IsClean : Token → Prop
  | char _ => True
  | tag name attributes => IsCleanTag name attributes

variable {name : String} {attributes : List (String × String)} {s source : List Char}

/-! ### Reading characters -/

/-- **A character is read from its source.** -/
theorem feed_entityOr (c : Char) :
    reader.feed .text (Entity.entityOr Entity.pageApostrophe c) = some ([.char c], .text) := by
  have hname : ∀ (name : List Char) (read : List Char), ';' ∉ name →
      reader.feed (.entity read) name = some ([], .entity (read ++ name)) := by
    intro name
    induction name with
    | nil => intro read _; simp [Scanner.feed]
    | cons d name ih =>
      intro read hname
      rw [List.mem_cons, not_or] at hname
      have hd : reader.step (.entity read) d = some ([], .entity (read ++ [d])) :=
        if_neg (Ne.symm hname.1)
      rw [Scanner.feed_cons hd (ih (read ++ [d]) hname.2), List.append_assoc]
      rfl
  by_cases hc : c ∈ Entity.marks
  · obtain ⟨name, hentity, hend, hchar⟩ := Entity.exists_entityOr_eq (Or.inl rfl) hc
    rw [hentity]
    have hbegin : reader.step .text '&' = some ([], .entity []) := rfl
    have hsemicolon : reader.step (.entity name) ';' = some ([.char c], .text) := by
      change (Entity.charOf? Entity.pageApostrophe name).map _ = _
      rw [hchar]
      rfl
    exact Scanner.feed_cons hbegin (Scanner.feed_append
      (hname name [] fun hin => hend _ hin List.mem_cons_self) (Scanner.feed_singleton hsemicolon))
  · rw [Entity.entityOr_of_notMem hc]
    refine Scanner.feed_singleton ?_
    have hne : c ≠ '<' ∧ c ≠ '&' := by
      refine ⟨?_, ?_⟩ <;> rintro rfl <;> exact hc (by decide)
    exact (if_neg hne.1).trans ((if_neg hne.2).trans (if_neg hc))

/-! ### Reading tags -/

/-- In a tag, what holds neither a quotation mark nor its end is read on. -/
theorem feed_tag (quoted : Bool) (source : List Char) (h : ∀ c ∈ s, c ≠ '"' ∧ c ≠ '>') :
    reader.feed (.tag quoted source) s = some ([], .tag quoted (source ++ s)) := by
  induction s generalizing source with
  | nil => simp [Scanner.feed]
  | cons c s ih =>
    obtain ⟨⟨hquote, hend⟩, hs⟩ := List.forall_mem_cons.mp h
    have hc : reader.step (.tag quoted source) c = some ([], .tag quoted (source ++ [c])) :=
      (if_neg hquote).trans (if_neg fun h => hend h.1)
    rw [Scanner.feed_cons hc (ih _ hs), List.append_assoc]
    rfl

/-- Between quotation marks, everything is read on. -/
theorem feed_quoted (h : '"' ∉ s) :
    reader.feed (.tag true source) s = some ([], .tag true (source ++ s)) := by
  induction s generalizing source with
  | nil => simp [Scanner.feed]
  | cons c s ih =>
    rw [List.mem_cons, not_or] at h
    have hc : reader.step (.tag true source) c = some ([], .tag true (source ++ [c])) :=
      (if_neg (Ne.symm h.1)).trans (if_neg (by simp))
    rw [Scanner.feed_cons hc (ih h.2), List.append_assoc]
    rfl

theorem feed_attribute {a : String × String} (hname : Avoids [' ', '"', '>', '='] a.1.toList)
    (hvalue : '"' ∉ a.2.toList) :
    reader.feed (.tag false source) (' ' :: (a.1.toList ++ '=' :: '"' :: (a.2.toList ++ ['"']))) =
      some ([], .tag false
        (source ++ ' ' :: (a.1.toList ++ '=' :: '"' :: (a.2.toList ++ ['"'])))) := by
  have hfront : ∀ c ∈ ' ' :: (a.1.toList ++ ['=']), c ≠ '"' ∧ c ≠ '>' := by
    intro c hc
    simp only [List.mem_cons, List.mem_append, List.not_mem_nil, or_false] at hc
    rcases hc with rfl | hc | rfl
    · decide
    · have := hname c hc
      simp only [List.mem_cons, List.not_mem_nil, or_false, not_or] at this
      exact ⟨this.2.1, this.2.2.1⟩
    · decide
  have hopen : ∀ read, reader.step (.tag false read) '"' = some ([], .tag true (read ++ ['"'])) :=
    fun _ => rfl
  have hclose : ∀ read, reader.step (.tag true read) '"' = some ([], .tag false (read ++ ['"'])) :=
    fun _ => rfl
  have hall := Scanner.feed_append (feed_tag false source hfront)
    (Scanner.feed_cons (hopen _) (Scanner.feed_append (feed_quoted hvalue)
      (Scanner.feed_singleton (hclose _))))
  simpa using hall

theorem feed_tagSource (h : IsCleanTag name attributes) :
    reader.feed (.tag false []) (tagSource name attributes) =
      some ([], .tag false (tagSource name attributes)) := by
  have hname : ∀ c ∈ name.toList, c ≠ '"' ∧ c ≠ '>' := fun c hc => by
    have := h.name_clean c hc
    simp only [List.mem_cons, List.not_mem_nil, or_false, not_or] at this
    exact this.2
  have hattributes : ∀ attributes : List (String × String),
      (∀ a ∈ attributes, Avoids [' ', '"', '>', '='] a.1.toList) →
      (∀ a ∈ attributes, '"' ∉ a.2.toList) → ∀ source,
      reader.feed (.tag false source) (attributes.flatMap fun a =>
        ' ' :: (a.1.toList ++ '=' :: '"' :: (a.2.toList ++ ['"']))) =
        some ([], .tag false (source ++ attributes.flatMap fun a =>
          ' ' :: (a.1.toList ++ '=' :: '"' :: (a.2.toList ++ ['"'])))) := by
    intro attributes
    induction attributes with
    | nil => intro _ _ source; simp [Scanner.feed]
    | cons a attributes ih =>
      intro hnames hvalues source
      obtain ⟨ha, hnames⟩ := List.forall_mem_cons.mp hnames
      obtain ⟨hv, hvalues⟩ := List.forall_mem_cons.mp hvalues
      rw [List.flatMap_cons, Scanner.feed_append (feed_attribute ha hv) (ih hnames hvalues _),
        List.append_assoc]
      rfl
  exact Scanner.feed_append (feed_tag false [] hname)
    (hattributes attributes h.attribute_clean h.value_clean _)

/-- The attributes of a clean tag are read from its source. -/
theorem attributesOf_splitOn (h : IsCleanTag name attributes) :
    attributesOf ((attributes.flatMap fun a =>
      ' ' :: (a.1.toList ++ '=' :: '"' :: (a.2.toList ++ ['"']))).splitOn '"') = attributes := by
  obtain ⟨-, hnames, hvalues⟩ := h
  induction attributes with
  | nil => rfl
  | cons a attributes ih =>
    obtain ⟨ha, hnames⟩ := List.forall_mem_cons.mp hnames
    obtain ⟨hv, hvalues⟩ := List.forall_mem_cons.mp hvalues
    have hkey : '"' ∉ ' ' :: (a.1.toList ++ ['=']) := by
      simp only [List.mem_cons, List.mem_append, List.not_mem_nil, or_false, not_or]
      exact ⟨by decide, fun hc => ha _ hc (by decide), by decide⟩
    have hfilter : (' ' :: (a.1.toList ++ ['='])).filter (· ∉ [' ', '=']) = a.1.toList := by
      have hself : a.1.toList.filter (· ∉ [' ', '=']) = a.1.toList :=
        List.filter_eq_self.mpr fun c hc => by
          have := ha c hc
          simp only [List.mem_cons, List.not_mem_nil, or_false, not_or] at this
          simp [this.1, this.2.2.2]
      rw [List.filter_cons_of_neg (by decide), List.filter_append, hself]
      simp
    have hcut : ∀ rest : List Char,
        (' ' :: (a.1.toList ++ '=' :: '"' :: (a.2.toList ++ '"' :: rest))).splitOn '"' =
          (' ' :: (a.1.toList ++ ['='])) :: a.2.toList :: rest.splitOn '"' := fun rest => by
      have hparts : ' ' :: (a.1.toList ++ '=' :: '"' :: (a.2.toList ++ '"' :: rest)) =
          (' ' :: (a.1.toList ++ ['='])) ++ '"' :: (a.2.toList ++ '"' :: rest) := by simp
      rw [hparts, List.splitOn_append_cons_self, List.splitOn_append_cons_self,
        List.splitOn_eq_singleton hkey, List.splitOn_eq_singleton hv]
      rfl
    rw [List.flatMap_cons]
    simp only [List.cons_append, List.append_assoc, List.nil_append]
    rw [hcut, attributesOf, hfilter, String.ofList_toList, String.ofList_toList, ih hnames hvalues]

/-- **A clean tag is read from its source.** -/
theorem ofSource_tagSource (h : IsCleanTag name attributes) :
    Token.ofSource (tagSource name attributes) = .tag name attributes := by
  set rest := attributes.flatMap fun a =>
    ' ' :: (a.1.toList ++ '=' :: '"' :: (a.2.toList ++ ['"'])) with hrest
  have hname : ∀ c ∈ name.toList, decide (c ≠ ' ') = true := fun c hc => by
    have := h.name_clean c hc
    simp only [List.mem_cons, List.not_mem_nil, or_false, not_or] at this
    exact decide_eq_true this.1
  -- the attributes begin with a space
  have hspace : rest.takeWhile (· ≠ ' ') = [] ∧ rest.dropWhile (· ≠ ' ') = rest := by
    rcases attributes with _ | ⟨a, attributes⟩ <;> simp [hrest]
  rw [Token.ofSource, tagSource, List.takeWhile_append_of_pos hname,
    List.dropWhile_append_of_pos hname, hspace.1, hspace.2, List.append_nil, String.ofList_toList,
    attributesOf_splitOn h]

theorem feed_write {t : Token} (h : t.IsClean) : reader.feed .text t.write = some ([t], .text) := by
  cases t with
  | char c => exact feed_entityOr c
  | tag name attributes =>
    have hbegin : reader.step .text '<' = some ([], .tag false []) := rfl
    have hend : reader.step (.tag false (tagSource name attributes)) '>' =
        some ([.tag name attributes], .text) := by
      rw [← ofSource_tagSource h]
      rfl
    exact Scanner.feed_cons hbegin
      (Scanner.feed_append (feed_tagSource h) (Scanner.feed_singleton hend))

/-- **What is written of clean tokens is read as these tokens.** -/
theorem read_write {tokens : List Token} (h : ∀ t ∈ tokens, t.IsClean) :
    read (write tokens) = some tokens := by
  have hfeed : reader.feed .text (tokens.flatMap Token.write) =
      some (tokens.flatMap ([·]), .text) :=
    Scanner.feed_flatMap fun t ht => feed_write (h t ht)
  have hread := Scanner.read_of_feed (S := reader) hfeed rfl
  rw [List.append_nil, List.flatMap_singleton'] at hread
  rwa [read, write, String.toList_ofList]

end ShiftReduce.Render.Page

import Mathlib.Data.List.Basic
import ShiftReduce.Render.Dot
import ShiftReduce.Proofs.Text.Joined
import ShiftReduce.Proofs.Text.Replacement
import ShiftReduce.Proofs.Text.Scanner

/-!
# Reading graphs

The text of a graph is read line by line (`ShiftReduce.Render.Dot.Graph.read`). A line is cut into
words, texts between quotation marks and single marks; spaces between them do not matter. The first
line has to be a title, the last one the end of the graph, and every line between them one whole
statement.

What is written of a graph is read as this graph (`ShiftReduce.Render.Dot.Graph.read_write`), if its
names and words are *words*: letters, digits and dots, at least one. Its texts may hold anything.
The five characters that are replaced in them one after the other may as well be replaced all at
once (`ShiftReduce.Render.Dot.toList_escape`), and so no character of a text ends its quotation or
its line (`ShiftReduce.Render.Dot.feed_quoted`).
-/

namespace ShiftReduce.Render.Dot

open Text

/-! ### Lines -/

/-- What a line is made of. -/
inductive Token where
  /-- A word or a text between quotation marks. -/
  | value (v : Value)
  /-- A mark on its own. -/
  | mark (c : Char)
deriving DecidableEq

/-- The marks that stand on their own. -/
def marks : List Char := ['=', ',', ';', '[', ']', '\x7b', '\x7d', '-', '>']

/-- Whether a character is one of words. -/
def isWordChar (c : Char) : Bool :=
  c.isAlphanum || c = '.'

/-- The character that a letter behind a backslash stands for. -/
def unescape? : Char → Option Char
  | '\\' => some '\\'
  | '"' => some '"'
  | 'n' => some '\n'
  | 't' => some '\t'
  | 'r' => some '\r'
  | _ => none

/-- Where a reader of lines is. -/
inductive Mode where
  /-- Between words, texts and marks. -/
  | blank
  /-- In a word of which this much has been read. -/
  | word (w : List Char)
  /-- In a text of which this much has been read, perhaps behind a backslash. It does not go over
  the end of the line. -/
  | text (escaped : Bool) (s : List Char)

/-- A word as a token. -/
def wordToken (w : List Char) : Token :=
  .value (.word (String.ofList w))

/-- What a reader of lines does at a character. -/
def step : Mode → Char → Option (List Token × Mode)
  | .blank, c =>
    if c = ' ' then some ([], .blank)
    else if c = '"' then some ([], .text false [])
    else if isWordChar c then some ([], .word [c])
    else if c ∈ marks then some ([.mark c], .blank)
    else none
  | .word w, c =>
    if isWordChar c then some ([], .word (w ++ [c]))
    else if c = ' ' then some ([wordToken w], .blank)
    else if c ∈ marks then some ([wordToken w, .mark c], .blank)
    else none
  | .text false s, c =>
    if c = '"' then some ([.value (.text (String.ofList s))], .blank)
    else if c = '\\' then some ([], .text true s)
    else if c = '\n' then none
    else some ([], .text false (s ++ [c]))
  | .text true s, c => (unescape? c).map fun d => ([], .text false (s ++ [d]))

/-- The reader of lines. No line ends in a text. -/
def reader : Scanner Mode Token where
  start := .blank
  step := step
  finish
    | .blank => some []
    | .word w => some [wordToken w]
    | .text _ _ => none

/-! ### Statements and graphs -/

/-- The attributes in front of the end of a statement. -/
def attributesOf : List Token → Option (List Attribute)
  | .value (.word key) :: .mark '=' :: .value v :: .mark ',' :: rest =>
    (attributesOf rest).map ((key, v) :: ·)
  | [.value (.word key), .mark '=', .value v, .mark ']', .mark ';'] => some [(key, v)]
  | _ => none

/-- The attributes behind a name: in brackets, or none. -/
def endOf : List Token → Option (List Attribute)
  | [.mark ';'] => some []
  | .mark '[' :: rest => attributesOf rest
  | _ => none

/-- The statement of a line. -/
def Statement.ofTokens : List Token → Option Statement
  | [.value (.word key), .mark '=', .value v, .mark ';'] => some (.setting (key, v))
  | .value (.word source) :: .mark '-' :: .mark '>' :: .value (.word target) :: rest =>
    (endOf rest).map (.edge source target)
  | .value (.word name) :: rest => (endOf rest).map (.node name)
  | _ => none

/-- The statements of the lines of a graph, the last of which ends it. -/
def statementsOf : List (List Token) → Option (List Statement)
  | [] => none
  | [line] => if line = [.mark '\x7d'] then some [] else none
  | line :: rest => (Statement.ofTokens line).bind fun s => (statementsOf rest).map (s :: ·)

/-- The title of the first line of a graph. -/
def titleOf : List Token → Option String
  | [.value (.word "digraph"), .value (.text title), .mark '\x7b'] => some title
  | _ => none

/-- The graph that is read of lines. -/
def Graph.ofLines : List (List Token) → Option Graph
  | [] => none
  | line :: rest => (titleOf line).bind fun title => (statementsOf rest).map (⟨title, ·⟩)

/-- **The graph of a text.** -/
def Graph.read (s : String) : Option Graph :=
  ((s.toList.splitOn '\n').mapM reader.read).bind ofLines

/-! ### Words -/

/-- **A word**: letters, digits and dots, at least one. -/
structure IsWord (s : String) : Prop where
  /-- There is a character in it. -/
  ne_nil : s.toList ≠ []
  /-- All characters are some of words. -/
  all : ∀ c ∈ s.toList, isWordChar c = true

instance (s : String) : Decidable (IsWord s) :=
  decidable_of_iff (s.toList ≠ [] ∧ s.toList.all isWordChar = true)
    ⟨fun ⟨hne, hall⟩ => ⟨hne, List.all_eq_true.mp hall⟩,
      fun ⟨hne, hall⟩ => ⟨hne, List.all_eq_true.mpr hall⟩⟩

theorem IsWord.append_toString {s : String} (h : IsWord s) (n : ℕ) : IsWord (s ++ toString n) where
  ne_nil := by simp [h.ne_nil]
  all c hc := by
    rw [String.toList_append, List.mem_append] at hc
    rcases hc with hc | hc
    · exact h.all c hc
    · rw [Nat.toString_eq_ofList_toDigits, String.toList_ofList] at hc
      have hdigit := Nat.isDigit_of_mem_toDigits (by omega) (by omega) hc
      simp [isWordChar, Char.isAlphanum, hdigit]

/-- A value is clean if it is a text, or a word that is one. -/
def Value.IsClean : Value → Prop
  | word s => IsWord s
  | text _ => True

/-- A statement is clean if its names and words are words. -/
def Statement.IsClean : Statement → Prop
  | setting a => IsWord a.1 ∧ a.2.IsClean
  | node name attributes => IsWord name ∧ ∀ a ∈ attributes, IsWord a.1 ∧ a.2.IsClean
  | edge source target attributes =>
    IsWord source ∧ IsWord target ∧ ∀ a ∈ attributes, IsWord a.1 ∧ a.2.IsClean

instance : ∀ v : Value, Decidable v.IsClean
  | .word s => inferInstanceAs (Decidable (IsWord s))
  | .text _ => isTrue trivial

instance : ∀ x : Statement, Decidable x.IsClean
  | .setting a => inferInstanceAs (Decidable (IsWord a.1 ∧ a.2.IsClean))
  | .node name attributes =>
    inferInstanceAs (Decidable (IsWord name ∧ ∀ a ∈ attributes, IsWord a.1 ∧ a.2.IsClean))
  | .edge source target attributes => inferInstanceAs
    (Decidable (IsWord source ∧ IsWord target ∧ ∀ a ∈ attributes, IsWord a.1 ∧ a.2.IsClean))

variable {s : String} {c : Char} {v : Value} {a : Attribute} {attributes : List Attribute}

/-! ### Reading words, texts and marks -/

theorem not_isWordChar_of_mem_marks : ∀ c ∈ marks, c ≠ ' ' ∧ c ≠ '"' ∧ isWordChar c = false := by
  simp only [marks, List.forall_mem_cons, List.not_mem_nil, false_imp_iff, implies_true, and_true]
  decide

/-- No line break is read. -/
theorem lineBreak_notMem_of_feed {q : Mode} {l : List Char} {found : List Token × Mode}
    (h : reader.feed q l = some found) : '\n' ∉ l := by
  induction l generalizing q found with
  | nil => exact List.not_mem_nil
  | cons c l ih =>
    obtain ⟨first, hstep, hrest⟩ := Option.bind_eq_some_iff.mp h
    obtain ⟨later, hlater, -⟩ := Option.map_eq_some_iff.mp hrest
    rw [List.mem_cons, not_or]
    refine ⟨?_, ih hlater⟩
    rintro rfl
    have hnone : step q '\n' = none := by
      rcases q with _ | w | ⟨_ | _, s⟩ <;> rfl
    exact absurd (hnone.symm.trans hstep) (by simp)

theorem feed_mark (hc : c ∈ marks) : reader.feed .blank [c] = some ([.mark c], .blank) := by
  obtain ⟨hspace, hquote, hword⟩ := not_isWordChar_of_mem_marks c hc
  refine Scanner.feed_singleton ?_
  simp [reader, step, hspace, hquote, hword, hc]

theorem feed_space : reader.feed .blank [' '] = some ([], .blank) := rfl

theorem feed_word (h : IsWord s) : reader.feed .blank s.toList = some ([], .word s.toList) := by
  have hrest : ∀ (l w : List Char), (∀ c ∈ l, isWordChar c = true) →
      reader.feed (.word w) l = some ([], .word (w ++ l)) := by
    intro l
    induction l with
    | nil => intro w _; simp [Scanner.feed]
    | cons c l ih =>
      intro w hl
      obtain ⟨hc, hl⟩ := List.forall_mem_cons.mp hl
      have hstep : reader.step (.word w) c = some ([], .word (w ++ [c])) := if_pos hc
      rw [Scanner.feed_cons hstep (ih _ hl), List.append_assoc]
      rfl
  obtain ⟨hne, hall⟩ := h
  rcases hchars : s.toList with _ | ⟨c, l⟩
  · exact absurd hchars hne
  · rw [hchars] at hall
    obtain ⟨hc, hl⟩ := List.forall_mem_cons.mp hall
    have hne : c ≠ ' ' ∧ c ≠ '"' := by
      constructor <;> rintro rfl <;> exact absurd hc (by decide)
    have hstep : reader.step .blank c = some ([], .word [c]) :=
      (if_neg hne.1).trans ((if_neg hne.2).trans (if_pos hc))
    exact Scanner.feed_cons hstep (hrest l [c] hl)

theorem feed_word_space (h : IsWord s) :
    reader.feed .blank (s.toList ++ [' ']) = some ([.value (.word s)], .blank) := by
  have hstep : reader.step (.word s.toList) ' ' = some ([wordToken s.toList], .blank) := rfl
  rw [Scanner.feed_append (feed_word h) (Scanner.feed_singleton hstep), wordToken,
    String.ofList_toList]
  rfl

theorem feed_word_mark (h : IsWord s) (hc : c ∈ marks) :
    reader.feed .blank (s.toList ++ [c]) = some ([.value (.word s), .mark c], .blank) := by
  obtain ⟨hspace, hquote, hword⟩ := not_isWordChar_of_mem_marks c hc
  have hstep : reader.step (.word s.toList) c = some ([wordToken s.toList, .mark c], .blank) := by
    simp [reader, step, hspace, hword, hc]
  rw [Scanner.feed_append (feed_word h) (Scanner.feed_singleton hstep), wordToken,
    String.ofList_toList]
  rfl

/-- **The five characters may be replaced in turn or at once**: none that is replaced later is put
in before. -/
theorem toList_escape (s : String) :
    (escape s).toList = s.toList.flatMap (replacementOf escapes) := by
  rw [escape, replaceInTurn_eq (by decide), String.toList_ofList]

/-- **A character of a text is read from how it is quoted**: it ends neither the text nor the
line. -/
theorem feed_replacementOf (l : List Char) (c : Char) :
    reader.feed (.text false l) (replacementOf escapes c) = some ([], .text false (l ++ [c])) := by
  by_cases hspecial : c ∈ ['\\', '"', '\n', '\t', '\r']
  · simp only [List.mem_cons, List.not_mem_nil, or_false] at hspecial
    rcases hspecial with rfl | rfl | rfl | rfl | rfl <;> rfl
  · simp only [List.mem_cons, List.not_mem_nil, or_false, not_or] at hspecial
    obtain ⟨hbackslash, hquote, hbreak, htab, hreturn⟩ := hspecial
    have hself : replacementOf escapes c = [c] := by
      have hnone : escapes.lookup c = none := by
        rw [List.lookup_eq_none_iff]
        simpa [escapes] using ⟨hbackslash, hquote, hbreak, htab, hreturn⟩
      rw [replacementOf, hnone]
      rfl
    rw [hself]
    refine Scanner.feed_singleton ?_
    exact (if_neg hquote).trans ((if_neg hbackslash).trans (if_neg hbreak))

/-- **A text is read from between its quotation marks**, whatever it holds. -/
theorem feed_quoted (s : String) :
    reader.feed .blank (quoted s).toList = some ([.value (.text s)], .blank) := by
  have hchars : ∀ l read : List Char,
      reader.feed (.text false read) (l.flatMap (replacementOf escapes)) =
        some ([], .text false (read ++ l)) := by
    intro l
    induction l with
    | nil => intro read; simp [Scanner.feed]
    | cons c l ih =>
      intro read
      rw [List.flatMap_cons, Scanner.feed_append (feed_replacementOf read c) (ih _),
        List.append_assoc]
      rfl
  have hopen : reader.step .blank '"' = some ([], .text false []) := rfl
  have hclose : reader.step (.text false s.toList) '"' =
      some ([.value (.text (String.ofList s.toList))], .blank) := rfl
  have hquoted : (quoted s).toList =
      '"' :: (s.toList.flatMap (replacementOf escapes) ++ ['"']) := by
    simp [quoted, toList_escape]
  rw [hquoted, Scanner.feed_cons hopen
    (Scanner.feed_append (hchars s.toList []) (Scanner.feed_singleton hclose)),
    String.ofList_toList]
  rfl

theorem feed_value_mark (hv : v.IsClean) (hc : c ∈ marks) :
    reader.feed .blank (v.write.toList ++ [c]) = some ([.value v, .mark c], .blank) := by
  cases v with
  | word s => exact feed_word_mark hv hc
  | text s => exact Scanner.feed_append (feed_quoted s) (feed_mark hc)

/-! ### Reading statements -/

/-- An attribute in tokens. -/
def attributeTokens (a : Attribute) : List Token :=
  [.value (.word a.1), .mark '=', .value a.2]

/-- Attributes in tokens, with the bracket behind them. -/
def attributesTokens : List Attribute → List Token
  | [] => [.mark ']']
  | [a] => attributeTokens a ++ [.mark ']']
  | a :: rest => attributeTokens a ++ .mark ',' :: attributesTokens rest

/-- What stands behind a name, in tokens. -/
def endTokens (attributes : List Attribute) : List Token :=
  if attributes.isEmpty then [.mark ';']
  else .mark '[' :: (attributesTokens attributes ++ [.mark ';'])

/-- A statement in tokens. -/
def Statement.tokens : Statement → List Token
  | setting a => attributeTokens a ++ [.mark ';']
  | node name attributes => .value (.word name) :: endTokens attributes
  | edge source target attributes =>
    [.value (.word source), .mark '-', .mark '>'] ++ .value (.word target) :: endTokens attributes

theorem feed_attribute_mark (hkey : IsWord a.1) (hv : a.2.IsClean) (hc : c ∈ marks) :
    reader.feed .blank ((writeAttribute a).toList ++ [c]) =
      some (attributeTokens a ++ [.mark c], .blank) := by
  have hall := Scanner.feed_append (feed_word_mark (c := '=') hkey (by decide))
    (feed_value_mark hv hc)
  simpa [writeAttribute, attributeTokens] using hall

theorem feed_attributes (hclean : ∀ b ∈ a :: attributes, IsWord b.1 ∧ b.2.IsClean) :
    reader.feed .blank ((", ".intercalate ((a :: attributes).map writeAttribute)).toList ++ [']']) =
      some (attributesTokens (a :: attributes), .blank) := by
  induction attributes generalizing a with
  | nil =>
    obtain ⟨hkey, hv⟩ := hclean a List.mem_cons_self
    exact feed_attribute_mark hkey hv (by decide)
  | cons b attributes ih =>
    obtain ⟨⟨hkey, hv⟩, hrest⟩ := List.forall_mem_cons.mp hclean
    have hall := Scanner.feed_append (feed_attribute_mark (c := ',') hkey hv (by decide))
      (Scanner.feed_append feed_space (ih hrest))
    rw [List.map_cons, List.map_cons, String.intercalate_cons_cons, ← List.map_cons]
    simpa [attributesTokens] using hall

theorem feed_name_end (hname : IsWord s) (hclean : ∀ b ∈ attributes, IsWord b.1 ∧ b.2.IsClean) :
    reader.feed .blank (s ++ writeAttributes attributes ++ ";").toList =
      some (.value (.word s) :: endTokens attributes, .blank) := by
  rcases attributes with _ | ⟨a, attributes⟩
  · have hall := feed_word_mark (c := ';') hname (by decide)
    simpa [writeAttributes, endTokens] using hall
  · have hall := Scanner.feed_append (feed_word_space hname)
      (Scanner.feed_append (feed_mark (c := '[') (by decide))
        (Scanner.feed_append (feed_attributes hclean) (feed_mark (c := ';') (by decide))))
    simpa [writeAttributes, endTokens] using hall

/-- **A clean statement is read from its line.** -/
theorem Statement.read_write {x : Statement} (h : x.IsClean) :
    reader.read x.write.toList = some x.tokens := by
  have hindent : reader.feed .blank "  ".toList = some ([], .blank) := rfl
  have hfeed : reader.feed .blank x.write.toList = some (x.tokens, .blank) := by
    cases x with
    | setting a =>
      have hall := Scanner.feed_append hindent (feed_attribute_mark (c := ';') h.1 h.2 (by decide))
      simpa [write, tokens] using hall
    | node name attributes =>
      have hall := Scanner.feed_append hindent (feed_name_end h.1 h.2)
      simpa [write, tokens] using hall
    | edge source target attributes =>
      have harrow : reader.feed .blank ['-', '>', ' '] =
          some ([.mark '-', .mark '>'], .blank) := rfl
      have hall := Scanner.feed_append hindent (Scanner.feed_append (feed_word_space h.1)
        (Scanner.feed_append harrow (feed_name_end h.2.1 h.2.2)))
      simpa [write, tokens] using hall
  have hread := Scanner.read_of_feed (S := reader) hfeed rfl
  rwa [List.append_nil] at hread

theorem attributesOf_attributesTokens (a : Attribute) (attributes : List Attribute) :
    attributesOf (attributesTokens (a :: attributes) ++ [.mark ';']) = some (a :: attributes) := by
  induction attributes generalizing a with
  | nil => rfl
  | cons b attributes ih =>
    change (attributesOf (attributesTokens (b :: attributes) ++ [.mark ';'])).map _ = _
    rw [ih b]
    rfl

theorem endOf_endTokens (attributes : List Attribute) :
    endOf (endTokens attributes) = some attributes := by
  rcases attributes with _ | ⟨a, attributes⟩
  · rfl
  · exact attributesOf_attributesTokens a attributes

/-- What stands behind a name begins with a bracket or ends the statement. -/
theorem endTokens_cases (attributes : List Attribute) :
    endTokens attributes = [.mark ';'] ∨ ∃ rest, endTokens attributes = .mark '[' :: rest := by
  rcases attributes with _ | ⟨a, attributes⟩
  · exact Or.inl rfl
  · exact Or.inr ⟨_, rfl⟩

/-- **A statement is told from its tokens.** -/
theorem Statement.ofTokens_tokens (x : Statement) : ofTokens x.tokens = some x := by
  cases x with
  | setting a => rfl
  | node name attributes =>
    have hend := endOf_endTokens attributes
    rw [tokens]
    rcases endTokens_cases attributes with heq | ⟨rest, heq⟩
    · rw [heq] at hend ⊢
      exact congrArg (Option.map (node name)) hend
    · rw [heq] at hend ⊢
      exact congrArg (Option.map (node name)) hend
  | edge source target attributes =>
    exact congrArg (Option.map (edge source target)) (endOf_endTokens attributes)

/-! ### Reading graphs -/

theorem statementsOf_tokens (l : List Statement) :
    statementsOf (l.map Statement.tokens ++ [[.mark '\x7d']]) = some l := by
  induction l with
  | nil => rfl
  | cons x l ih =>
    obtain ⟨line, rest, hrest⟩ : ∃ line rest,
        l.map Statement.tokens ++ [[.mark '\x7d']] = line :: rest := by
      rcases l with _ | ⟨y, l⟩ <;> exact ⟨_, _, rfl⟩
    rw [List.map_cons, List.cons_append]
    rw [hrest] at ih ⊢
    rw [statementsOf, Statement.ofTokens_tokens, ih]
    · rfl
    · exact List.cons_ne_nil line rest

/-- A clean graph is one with clean statements. -/
def Graph.IsClean (g : Graph) : Prop :=
  ∀ x ∈ g.statements, x.IsClean

/-- The lines of a graph. -/
def Graph.lines (g : Graph) : List String :=
  ("digraph " ++ quoted g.title ++ " \x7b") :: g.statements.map Statement.write ++ ["\x7d"]

/-- The lines of a graph in tokens. -/
def Graph.lineTokens (g : Graph) : List (List Token) :=
  [.value (.word "digraph"), .value (.text g.title), .mark '\x7b']
    :: (g.statements.map Statement.tokens ++ [[.mark '\x7d']])

theorem read_title (title : String) : reader.read ("digraph " ++ quoted title ++ " \x7b").toList =
    some [.value (.word "digraph"), .value (.text title), .mark '\x7b'] := by
  have hall := Scanner.feed_append (feed_word_space (by decide +kernel : IsWord "digraph"))
    (Scanner.feed_append (feed_quoted title)
      (Scanner.feed_append feed_space (feed_mark (c := '\x7b') (by decide))))
  have hchars : ("digraph " ++ quoted title ++ " \x7b").toList =
      "digraph".toList ++ [' '] ++ ((quoted title).toList ++ ([' '] ++ ['\x7b'])) := by simp
  rw [hchars]
  exact Scanner.read_of_feed hall rfl

theorem lineBreak_notMem_of_read {l : List Char} {tokens : List Token}
    (h : reader.read l = some tokens) : '\n' ∉ l := by
  obtain ⟨found, hfound, -⟩ := Option.bind_eq_some_iff.mp h
  exact lineBreak_notMem_of_feed hfound

/-- **Every line of a clean graph is read on its own**: it is the title, one whole statement, or the
end of the graph. -/
theorem Graph.mapM_read {g : Graph} (h : g.IsClean) :
    (g.lines.map String.toList).mapM reader.read = some g.lineTokens := by
  have hend : reader.read "\x7d".toList = some [.mark '\x7d'] := rfl
  have hstatements : ∀ l : List Statement, (∀ x ∈ l, x.IsClean) →
      ((l.map Statement.write ++ ["\x7d"]).map String.toList).mapM reader.read =
        some (l.map Statement.tokens ++ [[.mark '\x7d']]) := by
    intro l
    induction l with
    | nil => exact fun _ => rfl
    | cons x l ih =>
      intro hl
      obtain ⟨hx, hl⟩ := List.forall_mem_cons.mp hl
      rw [List.map_cons, List.cons_append, List.map_cons, List.mapM_cons, Statement.read_write hx,
        ih hl]
      rfl
  rw [lines, List.cons_append, List.map_cons, List.mapM_cons, read_title,
    hstatements g.statements h]
  rfl

theorem Graph.lineBreak_notMem {g : Graph} (h : g.IsClean) :
    ∀ line ∈ g.lines, '\n' ∉ line.toList := by
  intro line hline
  simp only [lines, List.mem_append, List.mem_cons, List.mem_map, List.not_mem_nil,
    or_false] at hline
  rcases hline with (rfl | ⟨x, hx, rfl⟩) | rfl
  · exact lineBreak_notMem_of_read (read_title g.title)
  · exact lineBreak_notMem_of_read (Statement.read_write (h x hx))
  · decide

/-- The text of a clean graph is cut into the lines that it was put together from. -/
theorem Graph.splitOn_write {g : Graph} (h : g.IsClean) :
    g.write.toList.splitOn '\n' = g.lines.map String.toList := by
  have hbreak : ∀ l ∈ g.lines.map String.toList, '\n' ∉ l := by
    intro l hl
    obtain ⟨line, hline, rfl⟩ := List.mem_map.mp hl
    exact lineBreak_notMem h line hline
  have hjoin : g.write.toList = ['\n'].intercalate (g.lines.map String.toList) :=
    String.toList_intercalate
  rw [hjoin, List.splitOn_intercalate '\n' hbreak (by simp [lines])]

/-- **What is written of a clean graph is read as this graph.** -/
theorem Graph.read_write {g : Graph} (h : g.IsClean) : read g.write = some g := by
  rw [read, splitOn_write h, mapM_read h, Option.bind_some, lineTokens, ofLines, titleOf,
    Option.bind_some, statementsOf_tokens]
  rfl

/-! ### Line by line -/

/-- The statement of a line. -/
def Statement.ofLine (line : List Char) : Option Statement :=
  (reader.read line).bind ofTokens

/-- **A text has a graph line by line**: the first line is the title, the last one the end, and each
line between them is one whole statement, in the order of the statements. -/
def Graph.IsLineByLine (g : Graph) (text : String) : Prop :=
  ∃ first l, text.toList.splitOn '\n' = first :: (l ++ [['\x7d']]) ∧
    (reader.read first).bind titleOf = some g.title ∧
    l.map Statement.ofLine = g.statements.map some

/-- **A clean graph is written line by line.** -/
theorem Graph.isLineByLine_write {g : Graph} (h : g.IsClean) : g.IsLineByLine g.write := by
  refine ⟨("digraph " ++ quoted g.title ++ " \x7b").toList,
    g.statements.map fun x => x.write.toList, ?_, ?_, ?_⟩
  · rw [splitOn_write h, lines]
    simp
  · rw [read_title]
    rfl
  · rw [List.map_map]
    refine List.map_congr_left fun x hx => ?_
    rw [Function.comp_apply, Statement.ofLine, Statement.read_write (h x hx), Option.bind_some,
      Statement.ofTokens_tokens]

end ShiftReduce.Render.Dot

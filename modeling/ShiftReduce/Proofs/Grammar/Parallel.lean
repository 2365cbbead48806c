import ShiftReduce.Proofs.Grammar.Scripted

/-!
# What differs stays different

Two scripts that go on with the same lines can only give the same rows if they had the same ones
before. Every line adds to the end of what a row lists, be it a further alternative or more of the
last one, and so what the line adds can be taken off again (`ShiftReduce.Script.Reversible`). A line
that is read after two *parallel* drafts, which have the same left-hand sides and the same current
one (`ShiftReduce.Script.Draft.Parallel`), keeps apart what they list, and so do any lines
(`ShiftReduce.Script.Draft.Parallel.contents_readLines_iff`).
-/

namespace ShiftReduce.Script

/-- **A change to a row that can be taken back**: it leaves the left-hand side, and what the row
lists can be told from what it lists then. -/
structure Reversible (f : Row → Row) (change : List String → List String) : Prop where
  /-- The left-hand side is left. -/
  left_eq : ∀ r, (f r).left = r.left
  /-- What the row lists then. -/
  right_eq : ∀ r, (f r).right = change r.right
  /-- It can be told what it listed before. -/
  injective : change.Injective

theorem reversible_addAlternatives (text : String) : Reversible (addAlternatives · text)
    (· ++ (alternativesIn text).filter fun text => text ∉ emptySpellings ∧ text ≠ "") where
  left_eq r := by
    rw [addAlternatives_eq_enlarge]
    rfl
  right_eq r := by
    rw [addAlternatives_eq_enlarge]
    rfl
  injective := List.append_left_injective _

/-- What going on with the last alternative makes of the alternatives of a row. -/
def extended (text : String) (right : List String) : List String :=
  match right.getLast? with
  | none => [text]
  | some last => right.dropLast ++ [last ++ " " ++ text]

@[simp] theorem extended_nil (text : String) : extended text [] = [text] := rfl

@[simp] theorem extended_concat (text : String) (right : List String) (last : String) :
    extended text (right ++ [last]) = right ++ [last ++ " " ++ text] := by
  simp [extended]

theorem right_extendLast (row : Row) (text : String) :
    (extendLast row text).right = extended text row.right := by
  rw [extendLast, extended]
  cases row.right.getLast? <;> rfl

/-- An alternative that goes on is another one, and it is not the text that it goes on with. -/
theorem append_ne (last text : String) :
    last ++ " " ++ text ≠ last ∧ last ++ " " ++ text ≠ text := by
  constructor
  · intro hsame
    have hlength := congrArg (·.toList.length) hsame
    simp at hlength
  · intro hsame
    have hlength := congrArg (·.toList.length) hsame
    simp at hlength
    omega

theorem extended_ne_singleton (text : String) (front : List String) (last : String) :
    extended text (front ++ [last]) ≠ [text] := fun hsame => by
  rw [extended_concat] at hsame
  have hlast := congrArg List.getLast? hsame
  rw [List.getLast?_concat] at hlast
  exact (append_ne last text).2 (Option.some.inj hlast)

theorem injective_extended (text : String) : (extended text).Injective := by
  intro right right' h
  rcases List.eq_nil_or_concat' right with rfl | ⟨front, last, rfl⟩
  · rcases List.eq_nil_or_concat' right' with rfl | ⟨front', last', rfl⟩
    · rfl
    · exact absurd h.symm (extended_ne_singleton text front' last')
  · rcases List.eq_nil_or_concat' right' with rfl | ⟨front', last', rfl⟩
    · exact absurd h (extended_ne_singleton text front last)
    · rw [extended_concat, extended_concat] at h
      obtain ⟨rfl, hlast⟩ := List.append_inj' h rfl
      have hsame : last ++ " " ++ text = last' ++ " " ++ text := List.singleton_inj.mp hlast
      rw [String.append_left_inj, String.append_left_inj] at hsame
      rw [hsame]

theorem reversible_extendLast (text : String) :
    Reversible (extendLast · text) (extended text) where
  left_eq r := by
    unfold extendLast
    split <;> rfl
  right_eq r := right_extendLast r text
  injective := injective_extended text

namespace Draft

variable {d e : Draft} {A : Symbol}

/-- **What the rows list**, each for its left-hand side. -/
def contents (d : Draft) : List (Symbol × List String) :=
  d.rows.map fun r => (r.left, r.right)

/-- **Parallel drafts** have the same left-hand sides, and the same current one. -/
structure Parallel (d e : Draft) : Prop where
  /-- The same left-hand side is current. -/
  current_eq : d.current = e.current
  /-- They have the same left-hand sides. -/
  lefts_eq : d.rows.map Row.left = e.rows.map Row.left

theorem contents_update {f : Row → Row} {change : List String → List String}
    (hf : Reversible f change) (d : Draft) (A : Symbol) : (d.update A f).contents =
      d.contents.map fun c => if c.1 = A then (c.1, change c.2) else c := by
  rw [contents, contents, update, List.map_map, List.map_map]
  refine List.map_congr_left fun r _ => ?_
  by_cases hleft : r.left = A
  · simp [hleft, hf.right_eq, (hf.left_eq r).trans hleft]
  · simp [hleft]

/-- **What can be taken back** keeps apart what drafts list. -/
theorem contents_update_iff {f : Row → Row} {change : List String → List String}
    (hf : Reversible f change) :
    (d.update A f).contents = (e.update A f).contents ↔ d.contents = e.contents := by
  rw [contents_update hf, contents_update hf]
  refine (List.map_injective_iff.mpr fun c c' hsame => ?_).eq_iff
  have hfst : ∀ c : Symbol × List String,
      (if c.1 = A then (c.1, change c.2) else c).1 = c.1 := fun c => by
    split <;> rfl
  have hname : c.1 = c'.1 := by rw [← hfst c, ← hfst c', hsame]
  by_cases hA : c.1 = A
  · rw [if_pos hA, if_pos (hname ▸ hA)] at hsame
    exact Prod.ext hname (hf.injective (Prod.mk.inj hsame).2)
  · rwa [if_neg hA, if_neg (hname ▸ hA)] at hsame

/-- Two changes to a row of one draft, by what the row lists then. -/
theorem contents_update_eq_iff {f g : Row → Row} (hf : ∀ r, (f r).left = r.left)
    (hg : ∀ r, (g r).left = r.left) : (d.update A f).contents = (d.update A g).contents ↔
      ∀ r ∈ d.rows, r.left = A → (f r).right = (g r).right := by
  rw [contents, contents, update, update, List.map_map, List.map_map, List.map_inj_left]
  refine forall₂_congr fun r _ => ?_
  by_cases hleft : r.left = A
  · simp [hleft, hf, hg]
  · simp [hleft]

theorem Parallel.update {f : Row → Row} (h : d.Parallel e) (hf : ∀ r, (f r).left = r.left)
    (A : Symbol) : (d.update A f).Parallel (e.update A f) where
  current_eq := h.current_eq
  lefts_eq := by rw [map_left_update hf, map_left_update hf, h.lefts_eq]

theorem Parallel.select (h : d.Parallel e) (A : Symbol) : (d.select A).Parallel (e.select A) ∧
    ((d.select A).contents = (e.select A).contents ↔ d.contents = e.contents) := by
  have hany : d.rows.any (·.left = A) = e.rows.any (·.left = A) := by
    have hlefts : ∀ rows : List Row,
        rows.any (·.left = A) = (rows.map Row.left).any (· = A) := fun rows => by
      rw [List.any_map]
      rfl
    rw [hlefts, hlefts, h.lefts_eq]
  unfold Draft.select
  rw [hany]
  split
  · exact ⟨⟨rfl, h.lefts_eq⟩, Iff.rfl⟩
  · refine ⟨⟨rfl, ?_⟩, ?_⟩
    · simp [h.lefts_eq]
    · simp [contents]

/-- **One more line** keeps parallel drafts parallel, and keeps apart what they list. -/
theorem Parallel.read (h : d.Parallel e) (hcurrent : d.current.isSome = true) (number : ℕ)
    (l : Line) : (d.read number l).Parallel (e.read number l) ∧
      ((d.read number l).contents = (e.read number l).contents ↔ d.contents = e.contents) := by
  obtain ⟨A, hA⟩ := Option.isSome_iff_exists.mp hcurrent
  have hA' : e.current = some A := h.current_eq ▸ hA
  cases l with
  | production name alternatives =>
    obtain ⟨hselect, hcontents⟩ := h.select name
    have hadd := reversible_addAlternatives alternatives
    exact ⟨hselect.update hadd.left_eq name, (contents_update_iff hadd).trans hcontents⟩
  | bar alternatives =>
    have hadd := reversible_addAlternatives alternatives
    simp only [Draft.read, hA, hA']
    exact ⟨h.update hadd.left_eq A, contents_update_iff hadd⟩
  | plain text =>
    have hextend := reversible_extendLast text
    simp only [Draft.read, hA, hA']
    exact ⟨h.update hextend.left_eq A, contents_update_iff hextend⟩

/-- **Any further lines** keep apart what parallel drafts list. -/
theorem Parallel.contents_readLines_iff (h : d.Parallel e) (hcurrent : d.current.isSome = true)
    (numbered : List (ℕ × String)) :
    (d.readLines numbered).contents = (e.readLines numbered).contents ↔
      d.contents = e.contents := by
  induction numbered generalizing d e with
  | nil => exact Iff.rfl
  | cons line numbered ih =>
    obtain ⟨hread, hcontents⟩ := h.read hcurrent line.1 (.ofText line.2)
    rw [readLines_cons, readLines_cons, ih hread (read_of_isSome hcurrent _ _).2, hcontents]

end Draft

end ShiftReduce.Script

import Mathlib.Data.List.Basic
import ShiftReduce.Grammar.OfRows

/-!
# What building a grammar from rows ensures

A grammar put together by hand may be anything. One that `ShiftReduce.Grammar.ofRows` has built
is *well-formed* (`ShiftReduce.Grammar.wellFormed_of_ofRows`): its start symbol is a non-terminal
with a name, every left-hand side is a non-terminal, every symbol of a right-hand side is in
exactly one of the two sets, and the end marker is no terminal. The end marker may well be a
non-terminal, since only right-hand sides are searched for it; nothing below minds.
-/

namespace ShiftReduce

namespace Grammar

/-- What the later stages rely on in a grammar. -/
structure WellFormed (g : Grammar) : Prop where
  /-- The start symbol is a non-terminal. -/
  start_mem : g.start ∈ g.nonTerminals
  /-- The start symbol has a name. -/
  start_ne : g.start ≠ ""
  /-- There is a production. -/
  productions_ne : g.productions ≠ []
  /-- Every left-hand side is a non-terminal. -/
  lhs_mem : ∀ p ∈ g.productions, p.lhs ∈ g.nonTerminals
  /-- Every symbol of a right-hand side is in one of the two sets. -/
  rhs_mem : ∀ p ∈ g.productions, ∀ x ∈ p.rhs, x ∈ g.terminals ∨ x ∈ g.nonTerminals
  /-- No symbol is in both sets. -/
  disjoint : ∀ x ∈ g.terminals, x ∉ g.nonTerminals
  /-- The end marker is no terminal. -/
  endMarker_notMem : endMarker ∉ g.terminals

theorem WellFormed.ne_endMarker {g : Grammar} (h : g.WellFormed) {x : Symbol}
    (hx : x ∈ g.terminals) : x ≠ endMarker := by
  rintro rfl
  exact h.endMarker_notMem hx

/-! ### Rows without problems -/

/-- A list of rows without problems: neither side of any row has one, and some rule is left. -/
theorem problemsOfRows_eq_nil {rows : List Row} (h : problemsOfRows rows = []) :
    Row.allLeftProblems [] rows = [] ∧ rows.flatMap Row.rightProblems = [] ∧
      rulesOfRows rows ≠ [] := by
  unfold problemsOfRows at h
  split at h
  · next hproblems =>
    obtain ⟨hleft, hright⟩ := List.append_eq_nil_iff.mp hproblems
    refine ⟨hleft, hright, fun hrules => ?_⟩
    simp [hrules] at h
  · next hproblems => exact absurd h hproblems

/-- The first row of a list without problems names the start symbol. -/
theorem lhs_head_ne {r : Row} {rest : List Row}
    (h : Row.allLeftProblems [] (r :: rest) = []) : r.lhs ≠ "" := by
  intro hlhs
  have hfirst := (List.append_eq_nil_iff.mp h).1
  simp [Row.leftProblems, hlhs] at hfirst

/-- In a row without problems no right-hand side uses the end marker. -/
theorem endMarker_notMem_of_mem_bodies {r : Row} {body : List Symbol} (hlhs : r.lhs ≠ "")
    (h : r.rightProblems = []) (hbody : body ∈ r.bodies) : endMarker ∉ body := by
  rcases List.mem_append.mp hbody with hbody | hbody
  · split at hbody
    · obtain rfl : body = [] := by simpa using hbody
      exact List.not_mem_nil
    · exact absurd hbody List.not_mem_nil
  · obtain ⟨alternative, halt, rfl⟩ := List.mem_map.mp hbody
    obtain ⟨k, hk⟩ := List.mem_iff_getElem?.mp (List.mem_filter.mp halt).1
    intro hmark
    rw [Row.rightProblems, if_neg hlhs, List.filterMap_eq_nil_iff] at h
    simpa [hmark] using h (alternative, k) (List.mem_zipIdx_iff_getElem?.mpr hk)

/-- What a rule of some rows comes from. -/
theorem mem_rulesOfRows {rows : List Row} {A : Symbol} {body : List Symbol} :
    (A, body) ∈ rulesOfRows rows ↔ ∃ r ∈ rows, r.lhs ≠ "" ∧ r.lhs = A ∧ body ∈ r.bodies := by
  simp only [rulesOfRows, List.mem_flatMap, List.mem_filter, List.mem_map, Prod.mk.injEq,
    decide_eq_true_eq]
  constructor
  · rintro ⟨r, ⟨hr, hne⟩, body', hbody, rfl, rfl⟩
    exact ⟨r, hr, hne, rfl, hbody⟩
  · rintro ⟨r, hr, hne, rfl, hbody⟩
    exact ⟨r, ⟨hr, hne⟩, body, hbody, rfl, rfl⟩

theorem mem_leftSides {rows : List Row} {A : Symbol} :
    A ∈ leftSides rows ↔ A ≠ "" ∧ ∃ r ∈ rows, r.lhs = A := by
  simp [leftSides, and_comm]

/-- Numbering rules changes neither side of any of them. -/
theorem exists_of_mem_number {rules : List (Symbol × List Symbol)} {p : Production}
    (h : p ∈ number rules) : (p.lhs, p.rhs) ∈ rules := by
  obtain ⟨⟨⟨A, body⟩, k⟩, hmem, rfl⟩ := List.mem_map.mp h
  exact List.fst_mem_of_mem_zipIdx hmem

/-! ### Well-formedness -/

/-- A grammar that rows describe is made of their left-hand sides and their rules. -/
theorem ofRows_eq_ok {rows : List Row} {g : Grammar} (h : ofRows rows = .ok g) :
    problemsOfRows rows = [] ∧ g.start = (rows.head?.map Row.lhs).getD "" ∧
      g.nonTerminals = SymbolSet.ofList (leftSides rows) ∧
      g.terminals = SymbolSet.ofList
        (((rulesOfRows rows).flatMap (·.2)).filter (· ∉ g.nonTerminals)) ∧
      g.productions = number (rulesOfRows rows) := by
  unfold ofRows at h
  split at h
  · next hproblems =>
    obtain rfl := Except.ok.inj h
    exact ⟨hproblems, rfl, rfl, rfl, rfl⟩
  · exact absurd h (by simp)

theorem ofRows_eq_error_iff {rows : List Row} {problems : List Problem} :
    ofRows rows = .error problems ↔ problems ≠ [] ∧ problemsOfRows rows = problems := by
  rw [ofRows]
  rcases hproblems : problemsOfRows rows with _ | ⟨p, later⟩
  · simp [eq_comm]
  · constructor
    · intro h
      obtain rfl := Except.error.inj h
      exact ⟨List.cons_ne_nil p later, rfl⟩
    · rintro ⟨-, rfl⟩
      rfl

/-- **A grammar that is built from rows is well-formed.** -/
theorem wellFormed_of_ofRows {rows : List Row} {g : Grammar} (h : ofRows rows = .ok g) :
    g.WellFormed := by
  obtain ⟨hproblems, hstart, hnon, hterm, hprods⟩ := ofRows_eq_ok h
  obtain ⟨hleft, hright, hrules⟩ := problemsOfRows_eq_nil hproblems
  obtain ⟨r, rest, rfl⟩ : ∃ r rest, rows = r :: rest := by
    cases rows with
    | nil => exact absurd rfl hrules
    | cons r rest => exact ⟨r, rest, rfl⟩
  have hne : r.lhs ≠ "" := lhs_head_ne hleft
  have hstart' : g.start = r.lhs := by simpa using hstart
  have hnon_iff : ∀ x, x ∈ g.nonTerminals ↔ x ∈ leftSides (r :: rest) := fun x => by
    rw [hnon, SymbolSet.mem_ofList]
  have hterm_iff : ∀ x, x ∈ g.terminals ↔
      (∃ rule ∈ rulesOfRows (r :: rest), x ∈ rule.2) ∧ x ∉ g.nonTerminals := fun x => by
    rw [hterm, SymbolSet.mem_ofList, List.mem_filter, List.mem_flatMap, decide_eq_true_eq]
  constructor
  · rw [hnon_iff, mem_leftSides, hstart']
    exact ⟨hne, r, by simp, rfl⟩
  · rw [hstart']
    exact hne
  · rw [hprods]
    simpa [number] using hrules
  · intro p hp
    obtain ⟨r', hr', hne', hlhs, -⟩ := mem_rulesOfRows.mp (exists_of_mem_number (hprods ▸ hp))
    rw [hnon_iff, mem_leftSides, ← hlhs]
    exact ⟨hne', r', hr', rfl⟩
  · intro p hp x hx
    by_cases hmem : x ∈ g.nonTerminals
    · exact Or.inr hmem
    · exact Or.inl ((hterm_iff x).mpr ⟨⟨_, exists_of_mem_number (hprods ▸ hp), hx⟩, hmem⟩)
  · exact fun x hx => ((hterm_iff x).mp hx).2
  · intro hmark
    obtain ⟨⟨⟨A, body⟩, hrule, hbody⟩, -⟩ := (hterm_iff endMarker).mp hmark
    obtain ⟨r', hr', hne', -, hbodies⟩ := mem_rulesOfRows.mp hrule
    exact endMarker_notMem_of_mem_bodies hne' (List.flatMap_eq_nil_iff.mp hright r' hr') hbodies
      hbody

/-! ### A small grammar

The grammar on which the theorems about runs are tried out: brackets around `c`, with a symbol for
the empty word before each closing bracket. -/

/-- The rows of the small grammar. -/
def bracketRows : List Row :=
  [⟨"1", "S", ["a S E b", "c"], false⟩, ⟨"2", "E", [], true⟩]

/-- The small grammar. -/
def brackets : Grammar where
  start := "S"
  nonTerminals := .ofList ["E", "S"]
  terminals := .ofList ["a", "b", "c"]
  productions := [⟨0, "S", ["a", "S", "E", "b"], "S -> a S E b"⟩, ⟨1, "S", ["c"], "S -> c"⟩,
    ⟨2, "E", [], "E -> ε"⟩]

theorem ofRows_bracketRows : ofRows bracketRows = .ok brackets := by decide +kernel

end Grammar

end ShiftReduce

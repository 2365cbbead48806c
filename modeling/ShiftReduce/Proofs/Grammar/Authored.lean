import ShiftReduce.Proofs.Grammar.Validation

/-!
# What is authored is what is built

A grammar that was built from rows says what the rows say, no more and no less
(`ShiftReduce.Grammar.Records`). Its productions are those that the rows list, one row after the
other, and within a row the empty word before the alternatives
(`ShiftReduce.Grammar.listed`). That a row is passed over, or an alternative that holds blanks
only, leaves no gap in the numbers of the productions, and loses nothing: in rows that describe a
grammar, a row without a left-hand side offers nothing.

Each symbol of a right-hand side is in one of the two symbol sets and not in the other, and a
terminal is in its set on account of some right-hand side. So the columns of the parsing table are
the symbols that the productions use, together with the end marker, which none of them uses.
-/

namespace ShiftReduce

/-- **The right-hand sides that a row lists**: the empty one if it is ticked, and then the symbols
of each alternative of which something is left without the blanks around it. -/
def Row.listed (r : Row) : List (List Symbol) :=
  (if r.hasEpsilon then [[]] else []) ++
    ((r.right.map Text.strip).filter (· ≠ "")).map Text.lexemesOf

namespace Grammar

/-- **The rules that rows list**, one row after the other. -/
def listed (rows : List Row) : List (Symbol × List Symbol) :=
  rows.flatMap fun r => r.listed.map fun rhs => (Text.strip r.left, rhs)

/-- **A grammar that says what rows say.** -/
structure Records (g : Grammar) (rows : List Row) : Prop extends g.WellFormed where
  /-- Every symbol of a right-hand side is in exactly one of the two sets. -/
  sorted : ∀ p ∈ g.productions, ∀ x ∈ p.rhs, x ∈ g.terminals ↔ x ∉ g.nonTerminals
  /-- Every terminal is used. -/
  used : ∀ x ∈ g.terminals, ∃ p ∈ g.productions, x ∈ p.rhs
  /-- No right-hand side uses the end marker. -/
  unmarked : ∀ p ∈ g.productions, endMarker ∉ p.rhs
  /-- A symbol of a right-hand side has a name, and there is no blank in it. -/
  named : ∀ p ∈ g.productions, ∀ x ∈ p.rhs, x ≠ "" ∧ ∀ c ∈ x.toList, Text.isBlank c = false
  /-- The productions are numbered from zero in their order. -/
  numbered : g.productions.map (·.id) = (List.range g.productions.length).map Int.ofNat
  /-- The productions are those that the rows list, in this order. -/
  rules : g.productions.map (fun p => (p.lhs, p.rhs)) = listed rows
  /-- A production is shown as the rule it is. -/
  shown : ∀ p ∈ g.productions, p.authored = Production.arrow p.lhs p.rhs
  /-- An alternative that is more than blanks does not give the empty word. -/
  spelled : ∀ r ∈ rows, ∀ alternative ∈ r.right, Text.strip alternative ≠ "" →
    Text.lexemesOf (Text.strip alternative) ≠ []

variable {rows : List Row} {g : Grammar}

/-! ### What rows list -/

theorem offers_iff {alternative : String} :
    Row.offers alternative = true ↔ Text.strip alternative ≠ "" := by
  rw [ne_eq, Text.strip_eq_empty_iff, Row.offers, Bool.not_eq_true', Bool.not_eq_true]

theorem listed_eq_bodies (r : Row) : r.listed = r.bodies := by
  have hoffers : r.right.filter ((fun left => decide (left ≠ "")) ∘ Text.strip) =
      r.right.filter Row.offers :=
    List.filter_congr fun alternative _ => by
      rw [Bool.eq_iff_iff, Function.comp_apply, decide_eq_true_eq, offers_iff]
  rw [Row.listed, Row.bodies, List.filter_map, hoffers, List.map_map]
  refine congrArg (_ ++ ·) (List.map_congr_left fun alternative _ => ?_)
  rw [Function.comp_apply, Text.lexemesOf_strip]

/-- A row that is passed over lists nothing. -/
theorem rulesOfRows_eq_listed (h : ∀ r ∈ rows, r.lhs = "" → r.hasContent = false) :
    rulesOfRows rows = listed rows := by
  induction rows with
  | nil => rfl
  | cons r rows ih =>
    obtain ⟨hr, hall⟩ := List.forall_mem_cons.mp h
    have hlater : listed (r :: rows) = r.bodies.map (fun rhs => (r.lhs, rhs)) ++ listed rows := by
      rw [listed, List.flatMap_cons, listed_eq_bodies, listed]
      rfl
    rw [hlater, ← ih hall]
    by_cases hlhs : r.lhs = ""
    · have hnone : r.bodies = [] := by
        by_contra hne
        exact absurd (bodies_ne_nil.mp hne) (by simp [hr hlhs])
      simp [rulesOfRows, hlhs, hnone]
    · simp [rulesOfRows, hlhs]

/-! ### Numbered rules -/

theorem map_sides_number (rules : List (Symbol × List Symbol)) :
    (number rules).map (fun p => (p.lhs, p.rhs)) = rules := by
  rw [number, List.map_map]
  exact List.zipIdx_map_fst 0 rules

theorem map_id_number (rules : List (Symbol × List Symbol)) :
    (number rules).map (·.id) = (List.range rules.length).map Int.ofNat := by
  rw [number, List.map_map, List.range_eq_range', ← List.zipIdx_map_snd 0 rules, List.map_map]
  rfl

/-! ### What a built grammar records -/

/-- **A grammar that was built from rows says what the rows say.** The start symbol and the
left-hand sides are non-terminals, each symbol of a right-hand side is a terminal or a non-terminal
but not both, the terminals are those that are used, and the end marker is not used. The
productions are the rules that the rows list, in this order and numbered from zero. -/
theorem ofRows_records (h : ofRows rows = .ok g) : g.Records rows := by
  have hwell : g.WellFormed := wellFormed_of_ofRows h
  obtain ⟨hproblems, -, -, hterm, hproductions⟩ := ofRows_eq_ok h
  have hrows : Admissible rows := problemsOfRows_eq_nil_iff.mp hproblems
  obtain ⟨-, hright, -⟩ := problemsOfRows_eq_nil hproblems
  have hrule : ∀ p ∈ g.productions, ∃ r ∈ rows, r.lhs ≠ "" ∧ p.rhs ∈ r.bodies := fun p hp => by
    obtain ⟨r, hr, hne, -, hbody⟩ := mem_rulesOfRows.mp (exists_of_mem_number (hproductions ▸ hp))
    exact ⟨r, hr, hne, hbody⟩
  refine ⟨hwell, ?_, ?_, ?_, ?_, ?_, ?_, ?_, ?_⟩
  · exact fun p hp x hx => ⟨hwell.disjoint x, (hwell.rhs_mem p hp x hx).resolve_right⟩
  · intro x hx
    rw [hterm, SymbolSet.mem_ofList, List.mem_filter, List.mem_flatMap] at hx
    obtain ⟨⟨rule, hmem, hx⟩, -⟩ := hx
    rw [← map_sides_number (rulesOfRows rows), ← hproductions] at hmem
    obtain ⟨p, hp, rfl⟩ := List.mem_map.mp hmem
    exact ⟨p, hp, hx⟩
  · intro p hp
    obtain ⟨r, hr, hne, hbody⟩ := hrule p hp
    exact endMarker_notMem_of_mem_bodies hne (List.flatMap_eq_nil_iff.mp hright r hr) hbody
  · intro p hp x hx
    obtain ⟨r, -, -, hbody⟩ := hrule p hp
    have hlexeme := isLexeme_of_mem_bodies hbody hx
    exact ⟨fun hempty => hlexeme.ne_nil (congrArg String.toList hempty), fun c => hlexeme.isBlank⟩
  · rw [hproductions, map_id_number]
    simp [number]
  · rw [hproductions, map_sides_number, rulesOfRows_eq_listed hrows.blank]
  · intro p hp
    rw [hproductions, number] at hp
    obtain ⟨e, -, rfl⟩ := List.mem_map.mp hp
    rfl
  · intro r _ alternative _ hleft
    rw [ne_eq, Text.lexemesOf_strip, lexemesOf_eq_nil_iff, offers_iff.mpr hleft]
    simp

/-- Rows with a blank row, alternatives that hold blanks only, and blanks of various kinds. -/
def spaciousRows : List Row :=
  [⟨"1", "\tS ", ["", " E(x )", " \u3000", "x|E"], true⟩, ⟨"2", " ", ["", "\n"], false⟩,
    ⟨"3", "E", ["S\u00a0x*"], false⟩]

/-- What these rows say. -/
def spacious : Grammar where
  start := "S"
  nonTerminals := .ofList ["E", "S"]
  terminals := .ofList ["(", ")", "*", "x", "|"]
  productions := [⟨0, "S", [], "S -> ε"⟩, ⟨1, "S", ["E", "(", "x", ")"], "S -> E ( x )"⟩,
    ⟨2, "S", ["x", "|", "E"], "S -> x | E"⟩, ⟨3, "E", ["S", "x", "*"], "E -> S x *"⟩]

theorem ofRows_records_spacious :
    ofRows spaciousRows = .ok spacious ∧ spacious.Records spaciousRows := by
  have hbuilt : ofRows spaciousRows = .ok spacious := by decide +kernel
  exact ⟨hbuilt, ofRows_records hbuilt⟩

end Grammar

end ShiftReduce

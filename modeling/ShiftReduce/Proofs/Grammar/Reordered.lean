import Mathlib.Data.List.Forall2
import Mathlib.Data.List.Perm.Basic
import Mathlib.Logic.Equiv.Basic
import ShiftReduce.Proofs.Grammar.Validation
import ShiftReduce.Proofs.Item.Signature

/-!
# Rows in another order

The first row names the start symbol and stays where it is; the rows behind it may change places,
and so may the alternatives within a row (`ShiftReduce.Grammar.Reordered`). This does not matter for
whether the rows describe a grammar (`ShiftReduce.Grammar.exists_ofRows_reordered_iff`), and if they
do, the two grammars differ in the numbers of their productions only: there is a permutation of the
numbers that takes each production of the one to the same production of the other
(`ShiftReduce.Grammar.Renumbered`, `ShiftReduce.Grammar.exists_renumbered`).
-/

namespace ShiftReduce

/-! ### Permutations of numbers -/

/-- The permutation that keeps zero and does to the later numbers what another one does to all. -/
def succPerm (π : Equiv.Perm ℕ) : Equiv.Perm ℕ where
  toFun
    | 0 => 0
    | k + 1 => π k + 1
  invFun
    | 0 => 0
    | k + 1 => π.symm k + 1
  left_inv k := by cases k <;> simp
  right_inv k := by cases k <;> simp

@[simp] theorem succPerm_zero (π : Equiv.Perm ℕ) : succPerm π 0 = 0 := rfl

@[simp] theorem succPerm_succ (π : Equiv.Perm ℕ) (k : ℕ) : succPerm π (k + 1) = π k + 1 := rfl

/-- **Lists with the same members** have them in places that a permutation takes to each other. -/
theorem exists_perm_getElem? {α : Type} {l l' : List α} (h : l.Perm l') :
    ∃ π : Equiv.Perm ℕ, ∀ k, l'[π k]? = l[k]? := by
  induction h with
  | nil => exact ⟨Equiv.refl ℕ, fun k => rfl⟩
  | cons a _ ih =>
    obtain ⟨π, hπ⟩ := ih
    refine ⟨succPerm π, fun k => ?_⟩
    cases k with
    | zero => rfl
    | succ k => simpa using hπ k
  | swap a b l =>
    refine ⟨Equiv.swap 0 1, fun k => ?_⟩
    match k with
    | 0 => simp
    | 1 => simp
    | k + 2 => rw [Equiv.swap_apply_of_ne_of_ne (by omega) (by omega)]; rfl
  | trans _ _ ih ih' =>
    obtain ⟨π, hπ⟩ := ih
    obtain ⟨ρ, hρ⟩ := ih'
    exact ⟨π.trans ρ, fun k => (hρ (π k)).trans (hπ k)⟩

theorem SymbolSet.ofList_eq_iff {l l' : List Symbol} :
    SymbolSet.ofList l = SymbolSet.ofList l' ↔ ∀ x, x ∈ l ↔ x ∈ l' := by
  rw [← Ascending.ofList_eq_iff, SymbolSet.ofList, SymbolSet.ofList, SymbolSet.mk.injEq]

/-! ### Rows -/

/-- **A row with its alternatives in another order.** -/
structure Row.Reordered (r r' : Row) : Prop where
  /-- The left-hand side is the same. -/
  left : r'.left = r.left
  /-- So is the tick for the empty word. -/
  hasEpsilon : r'.hasEpsilon = r.hasEpsilon
  /-- The alternatives are the same, too, up to their order. -/
  right : r'.right.Perm r.right

namespace Row.Reordered

variable {r r' : Row}

theorem symm (h : r.Reordered r') : r'.Reordered r :=
  ⟨h.left.symm, h.hasEpsilon.symm, h.right.symm⟩

theorem lhs_eq (h : r.Reordered r') : r'.lhs = r.lhs := by
  rw [Row.lhs, h.left, Row.lhs]

theorem hasContent_eq (h : r.Reordered r') : r'.hasContent = r.hasContent := by
  rw [Row.hasContent, h.right.any_eq, h.hasEpsilon, Row.hasContent]

theorem bodies_perm (h : r.Reordered r') : r'.bodies.Perm r.bodies := by
  rw [Row.bodies, h.hasEpsilon, Row.bodies]
  exact ((h.right.filter _).map _).append_left _

end Row.Reordered

namespace Grammar

/-- **Rows in another order**: the first row stays first, the others change places, and each row has
its alternatives in another order. -/
inductive Reordered : List Row → List Row → Prop
  /-- There are no rows. -/
  | nil : Reordered [] []
  /-- The rows behind the first change places. -/
  | cons {r r' : Row} {rest moved rest' : List Row} : r.Reordered r' → rest.Perm moved →
      List.Forall₂ Row.Reordered moved rest' → Reordered (r :: rest) (r' :: rest')

namespace Reordered

variable {rows rows' : List Row}

theorem symm (h : Reordered rows rows') : Reordered rows' rows := by
  cases h with
  | nil => exact .nil
  | @cons r r' rest moved rest' hr hperm hrows =>
    have hback : List.Forall₂ Row.Reordered rest' moved := hrows.flip.imp fun _ _ h => h.symm
    have hcomp : Relation.Comp (List.Forall₂ Row.Reordered) List.Perm rest' rest :=
      ⟨moved, hback, hperm.symm⟩
    rw [List.forall₂_comp_perm_eq_perm_comp_forall₂] at hcomp
    obtain ⟨moved', hperm', hrows'⟩ := hcomp
    exact .cons hr.symm hperm' hrows'

/-- All rows change places and have their alternatives in another order. -/
theorem exists_moved (h : Reordered rows rows') :
    ∃ moved, rows.Perm moved ∧ List.Forall₂ Row.Reordered moved rows' := by
  cases h with
  | nil => exact ⟨[], List.Perm.refl _, .nil⟩
  | cons hr hperm hrows => exact ⟨_, hperm.cons _, .cons hr hrows⟩

theorem exists_of_mem (h : Reordered rows rows') {r' : Row} (hr' : r' ∈ rows') :
    ∃ r ∈ rows, r.Reordered r' := by
  obtain ⟨moved, hperm, hrows⟩ := h.exists_moved
  clear h
  induction hrows generalizing rows with
  | nil => exact absurd hr' List.not_mem_nil
  | @cons r s moved rest' hr hrest ih =>
    rcases List.mem_cons.mp hr' with rfl | hr'
    · exact ⟨r, hperm.mem_iff.mpr List.mem_cons_self, hr⟩
    · obtain ⟨t, ht, hreordered⟩ := ih hr' (List.Perm.refl moved)
      exact ⟨t, hperm.mem_iff.mpr (List.mem_cons_of_mem r ht), hreordered⟩

theorem leftSides_perm (h : Reordered rows rows') : (leftSides rows').Perm (leftSides rows) := by
  obtain ⟨moved, hperm, hrows⟩ := h.exists_moved
  have hlhs : rows'.map Row.lhs = moved.map Row.lhs := by
    clear h hperm
    induction hrows with
    | nil => rfl
    | cons hr _ ih => rw [List.map_cons, List.map_cons, hr.lhs_eq, ih]
  rw [leftSides, hlhs, leftSides]
  exact (hperm.symm.map _).filter _

/-- **The rules are the same**, up to their order. -/
theorem rulesOfRows_perm (h : Reordered rows rows') :
    (rulesOfRows rows').Perm (rulesOfRows rows) := by
  obtain ⟨moved, hperm, hrows⟩ := h.exists_moved
  have hmoved : (rulesOfRows rows').Perm (rulesOfRows moved) := by
    clear h hperm
    induction hrows with
    | nil => exact List.Perm.refl _
    | @cons r r' moved rows' hr _ ih =>
      by_cases hempty : r.lhs = ""
      · simpa [rulesOfRows, hempty, hr.lhs_eq] using ih
      · have hfirst : (r'.bodies.map fun body => (r'.lhs, body)).Perm
            (r.bodies.map fun body => (r.lhs, body)) := by
          rw [hr.lhs_eq]
          exact hr.bodies_perm.map _
        simpa [rulesOfRows, hempty, hr.lhs_eq] using hfirst.append ih
  exact hmoved.trans ((hperm.symm.filter _).flatMap_right _)

theorem head?_lhs (h : Reordered rows rows') :
    rows'.head?.map Row.lhs = rows.head?.map Row.lhs := by
  cases h with
  | nil => rfl
  | cons hr _ _ => simp [hr.lhs_eq]

/-- **Admissible rows stay so.** -/
theorem admissible (h : Reordered rows rows') (hrows : Admissible rows) : Admissible rows' := by
  constructor
  · obtain ⟨r, rest, rfl, hne⟩ := hrows.first
    cases h with
    | cons hr _ _ => exact ⟨_, _, rfl, hr.lhs_eq ▸ hne⟩
  · intro r' hr' hempty
    obtain ⟨r, hr, hreordered⟩ := h.exists_of_mem hr'
    rw [hreordered.hasContent_eq]
    exact hrows.blank r hr (hreordered.lhs_eq ▸ hempty)
  · intro r' hr'
    obtain ⟨r, hr, hreordered⟩ := h.exists_of_mem hr'
    rw [hreordered.lhs_eq]
    exact hrows.unspaced r hr
  · exact h.leftSides_perm.nodup_iff.mpr hrows.distinct
  · intro r' hr' hne alternative halt
    obtain ⟨r, hr, hreordered⟩ := h.exists_of_mem hr'
    exact hrows.unreserved r hr (hreordered.lhs_eq ▸ hne) alternative
      (hreordered.right.mem_iff.mp halt)
  · obtain ⟨r, hr, hne, hcontent⟩ := hrows.productive
    obtain ⟨r', hr', hreordered⟩ := h.symm.exists_of_mem hr
    exact ⟨r', hr', hreordered.lhs_eq ▸ hne, hreordered.hasContent_eq ▸ hcontent⟩

end Reordered

end Grammar

/-! ### Grammars with other numbers -/

/-- What a production says, apart from its number. -/
def Production.content (p : Production) : Symbol × List Symbol × String :=
  (p.lhs, p.rhs, p.authored)

theorem Production.text_eq_of_content {p q : Production} (h : p.content = q.content) :
    p.text = q.text := by
  obtain ⟨hlhs, hrhs, hauthored⟩ : p.lhs = q.lhs ∧ p.rhs = q.rhs ∧ p.authored = q.authored := by
    simpa [Production.content] using h
  rw [Production.text, hlhs, hrhs, hauthored, Production.text]

namespace Grammar

/-- **A grammar with other numbers**: the permutation takes the number of each production to the
number of the same production in the other grammar, and all else is the same. -/
structure Renumbered (π : Equiv.Perm ℕ) (g g' : Grammar) : Prop where
  /-- The start symbol is the same. -/
  start : g'.start = g.start
  /-- The non-terminals are the same. -/
  nonTerminals : g'.nonTerminals = g.nonTerminals
  /-- The terminals are the same. -/
  terminals : g'.terminals = g.terminals
  /-- The productions are the same, up to their numbers. -/
  content : ∀ k, (g'.productions[π k]?).map Production.content =
    (g.productions[k]?).map Production.content

variable {rows rows' : List Row} {g : Grammar}

theorem content_number (rules : List (Symbol × List Symbol)) (k : ℕ) :
    ((number rules)[k]?).map Production.content =
      (rules[k]?).map fun rule => (rule.1, rule.2, Production.arrow rule.1 rule.2) := by
  simp [number, Production.content, Function.comp_def]

/-- **Rows in another order describe a grammar with other numbers.** -/
theorem exists_renumbered (h : Reordered rows rows') (hg : ofRows rows = .ok g) :
    ∃ (g' : Grammar) (π : Equiv.Perm ℕ), ofRows rows' = .ok g' ∧ g.Renumbered π g' := by
  obtain ⟨hproblems, hstart, hnon, hterm, hproductions⟩ := ofRows_eq_ok hg
  have hrows' : Admissible rows' := h.admissible (problemsOfRows_eq_nil_iff.mp hproblems)
  obtain ⟨g', hg'⟩ := exists_ofRows_iff.mpr hrows'
  obtain ⟨-, hstart', hnon', hterm', hproductions'⟩ := ofRows_eq_ok hg'
  obtain ⟨π, hπ⟩ := exists_perm_getElem? h.rulesOfRows_perm.symm
  have hsame : g'.nonTerminals = g.nonTerminals := by
    rw [hnon', hnon, SymbolSet.ofList_eq_iff]
    exact fun x => h.leftSides_perm.mem_iff
  refine ⟨g', π, hg', ?_, hsame, ?_, fun k => ?_⟩
  · rw [hstart', h.head?_lhs, hstart]
  · rw [hterm', hterm, hsame, SymbolSet.ofList_eq_iff]
    exact fun x => ((h.rulesOfRows_perm.flatMap_right _).filter _).mem_iff
  · rw [hproductions', hproductions, content_number, content_number, hπ k]

/-- **The order of the rows does not matter for whether they describe a grammar.** -/
theorem exists_ofRows_reordered_iff (h : Reordered rows rows') :
    (∃ g, ofRows rows = .ok g) ↔ ∃ g', ofRows rows' = .ok g' := by
  rw [exists_ofRows_iff, exists_ofRows_iff]
  exact ⟨h.admissible, h.symm.admissible⟩

end Grammar

end ShiftReduce

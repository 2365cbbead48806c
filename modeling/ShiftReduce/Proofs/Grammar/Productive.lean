import Mathlib.Data.List.Basic
import ShiftReduce.Proofs.Grammar.Built
import ShiftReduce.Proofs.Grammar.Derivation

/-!
# Productive grammars

A non-terminal is *productive* if some word of terminals can be derived from it, and a grammar is
if all its non-terminals are (`ShiftReduce.Grammar.IsProductive`). In a productive grammar
whatever begins a sentential form begins a word of the language: what stands behind it can always
be derived to an end (`ShiftReduce.Grammar.IsProductive.exists_generates`). In a grammar that is
not productive there may be prefixes of sentential forms that no word of the language begins with,
and nothing is said of them here.
-/

namespace ShiftReduce

namespace Grammar

variable {g : Grammar} {form u δ : List Symbol}

/-- **A productive grammar**: from every non-terminal some word of terminals is derived. -/
def IsProductive (g : Grammar) : Prop :=
  ∀ X ∈ g.nonTerminals, ∃ w, g.Derives [X] w ∧ ∀ a ∈ w, a ∈ g.terminals

/-- A grammar that is not productive has a non-terminal from which no word of terminals is
derived. -/
theorem not_isProductive_iff :
    ¬g.IsProductive ↔
      ∃ X ∈ g.nonTerminals, ∀ w, g.Derives [X] w → ¬∀ a ∈ w, a ∈ g.terminals := by
  simp only [IsProductive, not_forall, not_exists, not_and, exists_prop]

/-- In a productive grammar every word of symbols derives a word of terminals, symbol by symbol. -/
theorem IsProductive.exists_derives (h : g.IsProductive)
    (hform : ∀ x ∈ form, x ∈ g.terminals ∨ x ∈ g.nonTerminals) :
    ∃ w, g.Derives form w ∧ ∀ a ∈ w, a ∈ g.terminals := by
  induction form with
  | nil => exact ⟨[], .refl, by simp⟩
  | cons x form ih =>
    obtain ⟨hx, hform⟩ := List.forall_mem_cons.mp hform
    obtain ⟨w, hw, hterm⟩ := ih hform
    obtain ⟨v, hv, hterm'⟩ : ∃ v, g.Derives [x] v ∧ ∀ a ∈ v, a ∈ g.terminals := by
      rcases hx with hx | hx
      · exact ⟨[x], .refl, by simpa using hx⟩
      · exact h x hx
    exact ⟨v ++ w, hv.append hw, List.forall_mem_append.mpr ⟨hterm', hterm⟩⟩

/-- A derivation step in a well-formed grammar brings in symbols of the two sets only. -/
theorem Rewrites.mem_symbols {v : List Symbol} (hg : g.WellFormed) (h : g.Rewrites u v)
    (hu : ∀ x ∈ u, x ∈ g.terminals ∨ x ∈ g.nonTerminals) :
    ∀ x ∈ v, x ∈ g.terminals ∨ x ∈ g.nonTerminals := by
  obtain ⟨front, A, body, back, ⟨p, hp, rfl, rfl⟩, rfl, rfl⟩ := h
  rw [List.forall_mem_append, List.forall_mem_cons] at hu
  obtain ⟨hfront, -, hback⟩ := hu
  rw [List.forall_mem_append, List.forall_mem_append]
  exact ⟨⟨hfront, hg.rhs_mem p hp⟩, hback⟩

/-- **A sentential form of a well-formed grammar** is a word over its two sets of symbols. -/
theorem IsSentential.mem_symbols (hg : g.WellFormed) (h : g.IsSentential form) :
    ∀ x ∈ form, x ∈ g.terminals ∨ x ∈ g.nonTerminals := by
  unfold IsSentential at h
  induction h with
  | refl => simpa using Or.inr hg.start_mem
  | tail _ hstep ih => exact hstep.mem_symbols hg ih

/-- **In a productive grammar what begins a sentential form begins a word of the language**, if it
holds terminals only. -/
theorem IsProductive.exists_generates (h : g.IsProductive) (hg : g.WellFormed)
    (hform : g.IsSentential (u ++ δ)) (hu : ∀ a ∈ u, a ∈ g.terminals) :
    ∃ v, (∀ a ∈ v, a ∈ g.terminals) ∧ g.Generates (u ++ v) := by
  obtain ⟨-, hδ⟩ := List.forall_mem_append.mp (hform.mem_symbols hg)
  obtain ⟨v, hv, hterm⟩ := h.exists_derives hδ
  have hderives : g.Derives (u ++ δ) (u ++ v) := Derives.append .refl hv
  exact ⟨v, hterm, hform.trans hderives, List.forall_mem_append.mpr ⟨hu, hterm⟩⟩

/-- The small grammar is productive. -/
theorem isProductive_brackets : brackets.IsProductive := by
  have hbody : brackets.HasRule "S" ["c"] := by decide
  have hempty : brackets.HasRule "E" [] := by decide
  intro X hX
  have hcases : X = "E" ∨ X = "S" := by simpa [brackets] using hX
  rcases hcases with rfl | rfl
  · exact ⟨[], .single hempty.rewrites, by simp⟩
  · exact ⟨["c"], .single hbody.rewrites, by decide⟩

end Grammar

end ShiftReduce

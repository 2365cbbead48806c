import ShiftReduce.Proofs.Automaton.Canonical
import ShiftReduce.Proofs.Grammar.Reordered

/-!
# Items of a grammar with other numbers

Two augmented grammars may differ in the numbers of their productions only
(`ShiftReduce.Augmented.Renumbered`). Then an item of the one has a counterpart in the other, with
the number exchanged and the dot where it was (`ShiftReduce.Item.relabel`), and everything that is
done to items respects this: the counterpart has the same symbol behind the dot and asks for the
counterparts of what the item asks for. So item sets that match stay so when they are closed
(`ShiftReduce.Augmented.Matches.closure`) and when the dot moves on
(`ShiftReduce.Augmented.Matches.goto`), and every item set that gotos reach matches one that they
reach in the other grammar (`ShiftReduce.Augmented.Reachable.exists_matches`).

An item set is shown in ascending order, and the order of the counterparts may be any other; nothing
here depends on it.
-/

namespace ShiftReduce

/-- The item with another number for its production. -/
def Item.relabel (π : Equiv.Perm ℕ) (i : Item) : Item :=
  ⟨π i.production, i.dot⟩

@[simp] theorem Item.relabel_symm_relabel (π : Equiv.Perm ℕ) (i : Item) :
    (i.relabel π).relabel π.symm = i := by
  simp [relabel]

@[simp] theorem Item.relabel_relabel_symm (π : Equiv.Perm ℕ) (i : Item) :
    (i.relabel π.symm).relabel π = i := by
  simp [relabel]

theorem Item.relabel_advance (π : Equiv.Perm ℕ) (i : Item) :
    i.advance.relabel π = (i.relabel π).advance := rfl

namespace Augmented

/-! ### Augmented grammars with other numbers -/

/-- **An augmented grammar with other numbers**: the permutation takes the number of each production
to the number of the same production in the other grammar. The first production stays first. -/
structure Renumbered (π : Equiv.Perm ℕ) (A B : Augmented) : Prop where
  /-- The fresh start symbol is the same. -/
  top : B.top = A.top
  /-- The non-terminals are the same. -/
  nonTerminals : B.nonTerminals = A.nonTerminals
  /-- The terminals are the same. -/
  terminals : B.terminals = A.terminals
  /-- The first production stays first. -/
  zero : π 0 = 0
  /-- The productions are the same, up to their numbers. -/
  content : ∀ k, (B.productions[π k]?).map Production.content =
    (A.productions[k]?).map Production.content

theorem content_renumber (p : Production) (k : ℕ) : (renumber p k).content = p.content := rfl

/-- **Grammars with other numbers are augmented to such grammars.** -/
theorem exists_renumbered {π : Equiv.Perm ℕ} {g g' : Grammar} {settings : Settings}
    {A B : Augmented} (h : g.Renumbered π g') (hA : ofGrammar g settings = .ok A)
    (hB : ofGrammar g' settings = .ok B) : A.Renumbered (succPerm π) B := by
  obtain ⟨htop, hterm, hnon, hproductions⟩ := ofGrammar_eq_ok hA
  obtain ⟨htop', hterm', hnon', hproductions'⟩ := ofGrammar_eq_ok hB
  have hsame : B.top = A.top := by
    rw [htop', htop, freshTop, freshTop, h.start, h.nonTerminals, h.terminals]
  refine ⟨hsame, ?_, ?_, rfl, fun k => ?_⟩
  · rw [hnon', hnon, h.nonTerminals, hsame]
  · rw [hterm', hterm, h.terminals]
  · rw [hproductions, hproductions']
    cases k with
    | zero => simp [Production.content, hsame, h.start]
    | succ k => simpa [Function.comp_def, content_renumber] using h.content k

namespace Renumbered

variable {π : Equiv.Perm ℕ} {A B : Augmented} {i j : Item}

theorem symm (h : A.Renumbered π B) : B.Renumbered π.symm A := by
  refine ⟨h.top.symm, h.nonTerminals.symm, h.terminals.symm, ?_, fun k => ?_⟩
  · rw [Equiv.symm_apply_eq, h.zero]
  · have hk := h.content (π.symm k)
    rw [Equiv.apply_symm_apply] at hk
    exact hk.symm

theorem lhs_eq (h : A.Renumbered π B) (k : ℕ) : B.lhs (π k) = A.lhs k := by
  have hk := congrArg (Option.map Prod.fst) (h.content k)
  rw [Option.map_map, Option.map_map] at hk
  exact congrArg (Option.getD · "") hk

theorem rhs_eq (h : A.Renumbered π B) (k : ℕ) : B.rhs (π k) = A.rhs k := by
  have hk := congrArg (Option.map fun content => content.2.1) (h.content k)
  rw [Option.map_map, Option.map_map] at hk
  exact congrArg (Option.getD · []) hk

theorem lookaheads_eq (h : A.Renumbered π B) : B.lookaheads = A.lookaheads := by
  rw [lookaheads, lookaheads, h.terminals]

theorem exists_production (h : A.Renumbered π B) {k : ℕ} {p : Production}
    (hp : A.productions[k]? = some p) :
    ∃ q, B.productions[π k]? = some q ∧ q.content = p.content := by
  have hk := h.content k
  rw [hp, Option.map_some, Option.map_eq_some_iff] at hk
  exact hk

theorem size_pos (h : A.Renumbered π B) (hA : 0 < A.productions.size) :
    0 < B.productions.size := by
  obtain ⟨p, hp, -⟩ := h.exists_production (Array.getElem?_eq_getElem hA)
  rw [h.zero] at hp
  exact (Array.getElem?_eq_some_iff.mp hp).1

theorem nextSymbol_relabel (h : A.Renumbered π B) (i : Item) :
    B.nextSymbol (i.relabel π) = A.nextSymbol i := by
  rw [nextSymbol, Item.relabel, h.rhs_eq, nextSymbol]

theorem relabel_mem_asksFor (h : A.Renumbered π B) (hj : j ∈ A.asksFor i) :
    j.relabel π ∈ B.asksFor (i.relabel π) := by
  obtain ⟨X, p, hX, hmem, hdot, hp, hlhs⟩ := mem_asksFor_iff.mp hj
  obtain ⟨q, hq, hcontent⟩ := h.exists_production hp
  refine mem_asksFor_iff.mpr ⟨X, q, ?_, h.nonTerminals ▸ hmem, hdot, hq, ?_⟩
  · rw [h.nextSymbol_relabel, hX]
  · rw [← hlhs]
    exact congrArg Prod.fst hcontent

end Renumbered

/-! ### Item sets that match -/

/-- **Matching item sets**: the one holds the counterparts of what the other holds. -/
def Matches (π : Equiv.Perm ℕ) (items items' : List Item) : Prop :=
  ∀ i : Item, i.relabel π ∈ items' ↔ i ∈ items

section Matches

variable {π : Equiv.Perm ℕ} {A B : Augmented} {items items' : List Item} {X : Symbol}

theorem Matches.symm (h : Matches π items items') : Matches π.symm items' items := fun i => by
  rw [← h (i.relabel π.symm), Item.relabel_relabel_symm]

/-- What is in the closure of some items has its counterpart in the closure of theirs. -/
theorem Renumbered.relabel_mem_closure (h : A.Renumbered π B)
    (hitems : ∀ i ∈ items, i.relabel π ∈ items') :
    ∀ i ∈ A.closure items, i.relabel π ∈ B.closure items' :=
  closure_induction (fun i hi => subset_closure (hitems i hi)) fun _ _ hi hj =>
    closed_closure hi (h.relabel_mem_asksFor hj)

/-- **Matching item sets have matching closures.** -/
theorem Matches.closure (hitems : Matches π items items') (h : A.Renumbered π B) :
    Matches π (A.closure items) (B.closure items') := by
  intro i
  constructor
  · intro hi
    have hback := h.symm.relabel_mem_closure (fun j hj => (hitems.symm j).mpr hj) _ hi
    rwa [Item.relabel_symm_relabel] at hback
  · exact h.relabel_mem_closure (fun j hj => (hitems j).mpr hj) i

theorem Matches.moved (hitems : Matches π items items') (h : A.Renumbered π B) (X : Symbol) :
    Matches π (A.moved items X) (B.moved items' X) := by
  intro i
  rw [mem_moved, mem_moved]
  constructor
  · rintro ⟨j, hj, hX, hadvance⟩
    refine ⟨j.relabel π.symm, (hitems.symm j).mpr hj, ?_, ?_⟩
    · rw [h.symm.nextSymbol_relabel, hX]
    · rw [← Item.relabel_advance, ← hadvance, Item.relabel_symm_relabel]
  · rintro ⟨j, hj, hX, rfl⟩
    exact ⟨j.relabel π, (hitems j).mpr hj, by rw [h.nextSymbol_relabel, hX],
      Item.relabel_advance π j⟩

/-- **Matching item sets have matching gotos.** -/
theorem Matches.goto (hitems : Matches π items items') (h : A.Renumbered π B) (X : Symbol) :
    Matches π (A.goto items X) (B.goto items' X) :=
  (hitems.moved h X).closure h

theorem Matches.mem_symbolsAfterDot (hitems : Matches π items items') (h : A.Renumbered π B) :
    X ∈ B.symbolsAfterDot items' ↔ X ∈ A.symbolsAfterDot items := by
  rw [Augmented.mem_symbolsAfterDot, Augmented.mem_symbolsAfterDot]
  constructor
  · rintro ⟨i, hi, hX⟩
    exact ⟨i.relabel π.symm, (hitems.symm i).mpr hi, by rw [h.symm.nextSymbol_relabel, hX]⟩
  · rintro ⟨i, hi, hX⟩
    exact ⟨i.relabel π, (hitems i).mpr hi, by rw [h.nextSymbol_relabel, hX]⟩

/-- The item sets to begin with match. -/
theorem Renumbered.matches_first (h : A.Renumbered π B) :
    Matches π (A.closure [⟨0, 0⟩]) (B.closure [⟨0, 0⟩]) := by
  have hfirst : Matches π [(⟨0, 0⟩ : Item)] [⟨0, 0⟩] := by
    intro i
    have hzero : π i.production = 0 ↔ i.production = 0 := by
      rw [← h.zero, EmbeddingLike.apply_eq_iff_eq, h.zero]
    obtain ⟨p, d⟩ := i
    simpa [Item.relabel] using fun _ => hzero
  exact hfirst.closure h

/-- **Every item set that gotos reach matches one that they reach in the other grammar.** -/
theorem Reachable.exists_matches (h : A.Renumbered π B) (hitems : A.Reachable items) :
    ∃ items', B.Reachable items' ∧ Matches π items items' := by
  induction hitems with
  | first => exact ⟨_, .first, h.matches_first⟩
  | @goto items X _ hne ih =>
    obtain ⟨items', hreach, hmatch⟩ := ih
    refine ⟨B.goto items' X, .goto hreach ?_, hmatch.goto h X⟩
    rw [goto_ne_nil_iff] at hne ⊢
    exact (hmatch.mem_symbolsAfterDot h).mpr hne

end Matches

end Augmented

end ShiftReduce

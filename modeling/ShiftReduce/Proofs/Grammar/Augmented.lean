import Mathlib.Data.List.Perm.Subperm
import Mathlib.Data.List.Nodup
import Mathlib.Order.Bounds.Basic
import ShiftReduce.Grammar.Augmented
import ShiftReduce.Proofs.Grammar.Derivation
import ShiftReduce.Proofs.Grammar.Built

/-!
# Augmenting a well-formed grammar

`ShiftReduce.Augmented.Augments` says how an augmented grammar goes with the grammar it was made
from: production zero leads from the fresh start symbol to the old one, and production `k + 1` is
production `k` of the grammar. Every well-formed grammar has such a companion
(`ShiftReduce.Augmented.exists_ofGrammar`).

That the fresh start symbol *is* fresh is kept apart (`ShiftReduce.Augmented.IsFresh`), since the
safety of a run does not depend on it (`ShiftReduce.Augmented.isFresh_of_ofGrammar`): the primed
symbols grow, since the marker is not empty, so they are all different, and one more of them is
tried than there are symbols in the way
(`ShiftReduce.Augmented.exists_isLeast_freshTop`).
-/

namespace ShiftReduce

namespace Augmented

/-! ### The fresh start symbol -/

theorem length_primed (start : Symbol) (marker : String) (k : ℕ) :
    (primed start marker k).length = start.length + k * marker.length := by
  simp [primed]

/-- Primed symbols with different numbers of markers differ. -/
theorem primed_injective (start : Symbol) {marker : String} (hm : marker ≠ "") :
    Function.Injective (primed start marker) := by
  intro k l h
  have hlen := congrArg String.length h
  rw [length_primed, length_primed] at hlen
  have hpos : 0 < marker.length := Nat.pos_of_ne_zero fun h0 => hm (by simpa using h0)
  exact Nat.eq_of_mul_eq_mul_right hpos (by omega)

/-- **The fresh start symbol is primed as few times as make it fresh.** -/
theorem exists_isLeast_freshTop (g : Grammar) {marker : String} (hm : marker ≠ "") :
    ∃ k, freshTop g marker = primed g.start marker k ∧
      IsLeast {k | 1 ≤ k ∧ primed g.start marker k ∉ g.nonTerminals ∧
        primed g.start marker k ∉ g.terminals} k := by
  let taken := g.nonTerminals.toList ++ g.terminals.toList
  let candidates := (List.range' 1 (taken.length + 1)).map (primed g.start marker)
  have htaken : ∀ x, x ∉ taken ↔ x ∉ g.nonTerminals ∧ x ∉ g.terminals := fun x => by
    simp [taken]
  have hnodup : candidates.Nodup := List.Nodup.map (primed_injective g.start hm) List.nodup_range'
  -- there is one candidate more than there are symbols in the way
  have hfree : ∃ x ∈ candidates, x ∉ taken := by
    by_contra hcon
    push Not at hcon
    have hle := (List.subperm_of_subset hnodup hcon).length_le
    simp only [candidates, List.length_map, List.length_range'] at hle
    omega
  obtain ⟨x, hx, hxt⟩ := hfree
  obtain ⟨top, htop⟩ : ∃ top, candidates.find? (· ∉ taken) = some top :=
    Option.isSome_iff_exists.mp (List.find?_isSome.mpr ⟨x, hx, by simpa using hxt⟩)
  have heq : freshTop g marker = top := by
    change (candidates.find? (· ∉ taken)).getD _ = top
    rw [htop, Option.getD_some]
  obtain ⟨hnot, i, hi, hget, hbefore⟩ := List.find?_eq_some_iff_getElem.mp htop
  have hcandidate : ∀ j (hj : j < candidates.length),
      candidates[j] = primed g.start marker (1 + j) := fun j hj => by simp [candidates]
  rw [hcandidate i hi] at hget
  refine ⟨1 + i, heq.trans hget.symm, ⟨Nat.le_add_right 1 i, ?_⟩, ?_⟩
  · rw [hget, ← htaken]
    simpa using hnot
  · rintro k ⟨hk, hfresh⟩
    by_contra hlt
    -- a candidate that comes earlier was tried and is in the way
    have hj : k - 1 < i := by omega
    have hearlier := hbefore (k - 1) hj
    rw [hcandidate, Nat.add_sub_cancel' hk] at hearlier
    exact absurd ((htaken _).mpr hfresh) (by simpa using hearlier)

/-- The fresh start symbol is in neither symbol set. -/
theorem freshTop_notMem (g : Grammar) {marker : String} (hm : marker ≠ "") :
    freshTop g marker ∉ g.nonTerminals ∧ freshTop g marker ∉ g.terminals := by
  obtain ⟨k, heq, ⟨-, hfresh⟩, -⟩ := exists_isLeast_freshTop g hm
  exact heq ▸ hfresh

/-! ### The parts of an augmented grammar -/

/-- **An augmented grammar goes with a grammar** that is well-formed: it has the same terminals,
one more non-terminal, and one more production in front. -/
structure Augments (A : Augmented) (g : Grammar) : Prop where
  /-- The grammar is well-formed. -/
  wellFormed : g.WellFormed
  /-- The terminals are those of the grammar. -/
  terminals : A.terminals = g.terminals
  /-- The non-terminals are those of the grammar and the new start symbol. -/
  nonTerminals : ∀ x, x ∈ A.nonTerminals ↔ x = A.top ∨ x ∈ g.nonTerminals
  /-- The first production leads from the new start symbol to the old one. -/
  first : ∃ authored, A.productions[0]? = some ⟨0, A.top, [g.start], authored⟩
  /-- The others are those of the grammar, in order. -/
  later : ∀ k, A.productions[k + 1]? = (g.productions[k]?).map (renumber · (k + 1 : ℕ))

/-- The new start symbol is a symbol of the grammar in no sense. -/
structure IsFresh (A : Augmented) (g : Grammar) : Prop where
  /-- It is no non-terminal of the grammar. -/
  notMem_nonTerminals : A.top ∉ g.nonTerminals
  /-- It is no terminal of the grammar. -/
  notMem_terminals : A.top ∉ g.terminals

theorem ofGrammar_eq_ok {g : Grammar} {settings : Settings} {A : Augmented}
    (h : ofGrammar g settings = .ok A) :
    A.top = freshTop g settings.primeMarker ∧ A.terminals = g.terminals ∧
      A.nonTerminals = g.nonTerminals.insert A.top ∧
      A.productions = (⟨0, A.top, [g.start], Production.arrow A.top [g.start]⟩
        :: (g.productions.zipIdx 1).map fun (p, k) => renumber p k).toArray := by
  unfold ofGrammar at h
  split at h
  · obtain rfl := Except.ok.inj h
    exact ⟨rfl, rfl, rfl, rfl⟩
  · exact absurd h (by simp)

theorem augments_of_ofGrammar {g : Grammar} {settings : Settings} {A : Augmented}
    (hg : g.WellFormed) (h : ofGrammar g settings = .ok A) : A.Augments g := by
  obtain ⟨-, hterm, hnon, hprods⟩ := ofGrammar_eq_ok h
  refine ⟨hg, hterm, fun x => ?_, ⟨Production.arrow A.top [g.start], ?_⟩, fun k => ?_⟩
  · rw [hnon, SymbolSet.mem_insert]
  · rw [hprods]
    rfl
  · rw [hprods]
    simp only [List.getElem?_toArray, List.getElem?_cons_succ, List.getElem?_map,
      List.getElem?_zipIdx, Option.map_map, Function.comp_def, Nat.add_comm 1 k]

theorem isFresh_of_ofGrammar {g : Grammar} {settings : Settings} {A : Augmented}
    (h : ofGrammar g settings = .ok A) : A.IsFresh g := by
  obtain ⟨htop, -⟩ := ofGrammar_eq_ok h
  obtain ⟨hnon, hterm⟩ := freshTop_notMem g settings.primeMarker_ne
  exact ⟨htop ▸ hnon, htop ▸ hterm⟩

/-- **A well-formed grammar can be augmented.** -/
theorem exists_ofGrammar {g : Grammar} (hg : g.WellFormed) (settings : Settings) :
    ∃ A, ofGrammar g settings = .ok A := by
  have hprods : g.productions.isEmpty = false := by simpa using hg.productions_ne
  simp [ofGrammar, hg.start_ne, hprods]

/-! ### Productions by number -/

section Parts

variable {A : Augmented} {g : Grammar}

/-- A production by its number is the first one or one of the grammar. -/
theorem Augments.production_cases (h : A.Augments g) {k : ℕ} {p : Production}
    (hp : A.productions[k]? = some p) :
    (k = 0 ∧ p.lhs = A.top ∧ p.rhs = [g.start]) ∨
      (k ≠ 0 ∧ p.lhs ∈ g.nonTerminals ∧ g.HasRule p.lhs p.rhs) := by
  cases k with
  | zero =>
    obtain ⟨authored, hfirst⟩ := h.first
    obtain rfl : _ = p := Option.some.inj (hfirst.symm.trans hp)
    exact Or.inl ⟨rfl, rfl, rfl⟩
  | succ k =>
    rw [h.later] at hp
    obtain ⟨q, hq, rfl⟩ := Option.map_eq_some_iff.mp hp
    have hmem : q ∈ g.productions := List.mem_of_getElem? hq
    exact Or.inr ⟨Nat.succ_ne_zero k, h.wellFormed.lhs_mem q hmem, q, hmem, rfl, rfl⟩

/-- A rule of the grammar is a production with a number other than zero. -/
theorem Augments.exists_production (h : A.Augments g) {B : Symbol} {body : List Symbol}
    (hrule : g.HasRule B body) :
    ∃ k p, k ≠ 0 ∧ A.productions[k]? = some p ∧ p.lhs = B ∧ p.rhs = body := by
  obtain ⟨p, hp, rfl, rfl⟩ := hrule
  obtain ⟨k, hk⟩ := List.mem_iff_getElem?.mp hp
  exact ⟨k + 1, renumber p (k + 1 : ℕ), Nat.succ_ne_zero k, by rw [h.later, hk]; rfl, rfl, rfl⟩

theorem Augments.hasRule (h : A.Augments g) {k : ℕ} {p : Production}
    (hp : A.productions[k]? = some p) (hk : k ≠ 0) : g.HasRule p.lhs p.rhs := by
  rcases h.production_cases hp with ⟨h0, -⟩ | ⟨-, -, hrule⟩
  · exact absurd h0 hk
  · exact hrule

/-- A production of anything but the new start symbol is a rule of the grammar. -/
theorem Augments.hasRule_of_lhs_ne (h : A.Augments g) {k : ℕ} {p : Production}
    (hp : A.productions[k]? = some p) (hne : p.lhs ≠ A.top) : g.HasRule p.lhs p.rhs := by
  rcases h.production_cases hp with ⟨-, hlhs, -⟩ | ⟨-, -, hrule⟩
  · exact absurd hlhs hne
  · exact hrule

/-- The left-hand side of a rule is a non-terminal, in the augmented grammar too, and no
terminal. -/
theorem Augments.lhs_of_hasRule (h : A.Augments g) {B : Symbol} {body : List Symbol}
    (hrule : g.HasRule B body) : B ∈ A.nonTerminals ∧ B ∉ A.terminals := by
  obtain ⟨p, hp, rfl, -⟩ := hrule
  have hlhs := h.wellFormed.lhs_mem p hp
  refine ⟨(h.nonTerminals p.lhs).mpr (Or.inr hlhs), fun hterm => ?_⟩
  exact h.wellFormed.disjoint p.lhs (h.terminals ▸ hterm) hlhs

theorem Augments.size_pos (h : A.Augments g) : 0 < A.productions.size := by
  obtain ⟨authored, hfirst⟩ := h.first
  exact (Array.getElem?_eq_some_iff.mp hfirst).1

/-- A symbol of any right-hand side is in one of the two sets of the grammar. -/
theorem Augments.rhs_mem (h : A.Augments g) {k : ℕ} {p : Production}
    (hp : A.productions[k]? = some p) {x : Symbol} (hx : x ∈ p.rhs) :
    x ∈ g.terminals ∨ x ∈ g.nonTerminals := by
  rcases h.production_cases hp with ⟨-, -, hrhs⟩ | ⟨-, -, q, hq, -, hrhs⟩
  · obtain rfl : x = g.start := by simpa [hrhs] using hx
    exact Or.inr h.wellFormed.start_mem
  · exact h.wellFormed.rhs_mem q hq x (hrhs ▸ hx)

/-- The new start symbol, if it is fresh, stands in no right-hand side. -/
theorem IsFresh.notMem_rhs (hf : A.IsFresh g) (h : A.Augments g) {k : ℕ} {p : Production}
    (hp : A.productions[k]? = some p) : A.top ∉ p.rhs := by
  intro hx
  rcases h.rhs_mem hp hx with hmem | hmem
  · exact hf.notMem_terminals hmem
  · exact hf.notMem_nonTerminals hmem

/-- The new start symbol, if it is fresh, has no production but the first. -/
theorem IsFresh.lhs_eq_top_iff (hf : A.IsFresh g) (h : A.Augments g) {k : ℕ} {p : Production}
    (hp : A.productions[k]? = some p) : p.lhs = A.top ↔ k = 0 := by
  rcases h.production_cases hp with ⟨hk, hlhs, -⟩ | ⟨hk, hlhs, -⟩
  · exact ⟨fun _ => hk, fun _ => hlhs⟩
  · exact ⟨fun he => absurd (he ▸ hlhs) hf.notMem_nonTerminals, fun h0 => absurd h0 hk⟩

end Parts

/-! ### Sides of a production by number -/

theorem lhs_eq {A : Augmented} {k : ℕ} {p : Production} (hp : A.productions[k]? = some p) :
    A.lhs k = p.lhs := by
  simp [lhs, hp]

theorem rhs_eq {A : Augmented} {k : ℕ} {p : Production} (hp : A.productions[k]? = some p) :
    A.rhs k = p.rhs := by
  simp [rhs, hp]

theorem production?_natCast (A : Augmented) (k : ℕ) : A.production? k = A.productions[k]? := by
  simp [production?]

theorem mem_lookaheads {A : Augmented} {x : Symbol} :
    x ∈ A.lookaheads ↔ x ∈ A.terminals ∨ x = endMarker := by
  simp only [lookaheads, List.mem_append, List.mem_filter, SymbolSet.mem_toList,
    List.mem_singleton, decide_eq_true_eq]
  constructor
  · rintro (⟨hx, -⟩ | rfl)
    · exact Or.inl hx
    · exact Or.inr rfl
  · rintro (hx | rfl)
    · by_cases he : x = endMarker
      · exact Or.inr he
      · exact Or.inl ⟨hx, he⟩
    · exact Or.inr rfl

/-- Numbers are places if they are in the list with the places. -/
theorem id_eq_of_forall_zipIdx {productions : Array Production}
    (h : ∀ e ∈ productions.toList.zipIdx, e.1.id = e.2) (k : ℕ) (p : Production)
    (hp : productions[k]? = some p) : p.id = k :=
  h (p, k) (List.mem_zipIdx_iff_getElem?.mpr (by simpa using hp))

/-- The companion of the small grammar. -/
def brackets : Augmented where
  start := "S"
  top := "S'"
  productions := #[⟨0, "S'", ["S"], "S' -> S"⟩, ⟨1, "S", ["a", "S", "E", "b"], "S -> a S E b"⟩,
    ⟨2, "S", ["c"], "S -> c"⟩, ⟨3, "E", [], "E -> ε"⟩]
  terminals := .ofList ["a", "b", "c"]
  nonTerminals := .ofList ["E", "S", "S'"]
  id_eq := id_eq_of_forall_zipIdx (by decide)
  exists_first := ⟨_, rfl, rfl, rfl⟩

theorem ofGrammar_brackets : ofGrammar .brackets {} = .ok brackets := by rfl

end Augmented

end ShiftReduce

import Mathlib.Order.Bounds.Basic
import ShiftReduce.Proofs.Grammar.Augmented

/-!
# Augmenting any grammar

Augmenting supposes no more of a grammar than a start symbol and a production. What it lacks of
these two is reported (`ShiftReduce.Augmented.mem_problems_iff`); if it lacks neither, it gets a
fresh start symbol and one production in front, and its productions are numbered by their places
(`ShiftReduce.Augmented.IsAugmentation`).

The fresh start symbol is looked for by adding one prime marker after the other until the symbol is
in neither symbol set. In the library this search is bounded by the size of the sets;
`ShiftReduce.Augmented.Primes` is the search without the bound, which might go on for ever. It
comes to an end since longer symbols differ from shorter ones and the sets are finite, and it ends
at the least number of markers that will do (`ShiftReduce.Augmented.primes_of_isLeast`).

That a symbol is in neither set says nothing of the productions of a grammar put together by hand.
In one that was built from rows the sets cover the productions, so there the fresh start symbol
stands on neither side of any of them. `ShiftReduce.Augmented.ofGrammar_fresh` puts all of this
together.
-/

namespace ShiftReduce

namespace Augmented

/-- **The search for a fresh symbol without a bound**, from a symbol on. -/
inductive Primes (g : Grammar) (marker : String) : Symbol → Symbol → Prop
  /-- A symbol that is in neither symbol set ends the search. -/
  | fresh {x : Symbol} : x ∉ g.nonTerminals → x ∉ g.terminals → Primes g marker x x
  /-- A symbol that is in one of them gets one more marker, and the search goes on from there. -/
  | prime {x y : Symbol} : x ∈ g.nonTerminals ∨ x ∈ g.terminals →
      Primes g marker (x ++ marker) y → Primes g marker x y

/-- **A grammar with one production more in front**, from a new start symbol to the old one. -/
structure IsAugmentation (A : Augmented) (g : Grammar) : Prop where
  /-- The old start symbol is that of the grammar. -/
  start : A.start = g.start
  /-- The first production leads from the new start symbol to the old one. -/
  first : A.productions[0]? = some ⟨0, A.top, [g.start], A.top ++ " -> " ++ g.start⟩
  /-- The others are those of the grammar in order, apart from their numbers. -/
  later : ∀ i, A.productions[i + 1]? = (g.productions[i]?).map fun p => { p with id := (i + 1 : ℕ) }
  /-- The number of a production is its place. -/
  id_eq : ∀ (k : ℕ) (p : Production), A.productions[k]? = some p → p.id = k
  /-- The terminals are those of the grammar. -/
  terminals : A.terminals = g.terminals
  /-- The non-terminals are those of the grammar and the new start symbol. -/
  nonTerminals : ∀ x, x ∈ A.nonTerminals ↔ x = A.top ∨ x ∈ g.nonTerminals

variable {A : Augmented} {g : Grammar} {settings : Settings} {marker : String}

/-! ### The search for a fresh symbol -/

theorem primed_zero (start : Symbol) (marker : String) : primed start marker 0 = start := by
  simp [primed]

theorem primed_succ (start : Symbol) (marker : String) (k : ℕ) :
    primed start marker (k + 1) = primed start marker k ++ marker := by
  rw [primed, List.replicate_succ', primed]
  simp [String.append_assoc]

/-- **The search ends at the least number of markers that will do.** -/
theorem primes_of_isLeast {start : Symbol} {k : ℕ}
    (h : IsLeast {k | 1 ≤ k ∧ primed start marker k ∉ g.nonTerminals ∧
      primed start marker k ∉ g.terminals} k) :
    Primes g marker (start ++ marker) (primed start marker k) := by
  obtain ⟨⟨hk, hfresh⟩, hleast⟩ := h
  -- the induction is on the number of markers that are still missing
  have hsearch : ∀ n j, 1 ≤ j → j + n = k →
      Primes g marker (primed start marker j) (primed start marker k) := by
    intro n
    induction n with
    | zero =>
      rintro j - rfl
      exact .fresh hfresh.1 hfresh.2
    | succ n ih =>
      intro j hj hjk
      refine .prime ?_ ?_
      · by_contra htaken
        have hle := hleast ⟨hj, not_or.mp htaken⟩
        omega
      · rw [← primed_succ]
        exact ih (j + 1) (by omega) (by omega)
  have hfirst := hsearch (k - 1) 1 (Nat.le_refl 1) (by omega)
  rwa [primed_succ, primed_zero] at hfirst

/-! ### What a grammar lacks -/

/-- **What is reported is what a grammar lacks**: a start symbol, productions, or both. -/
theorem mem_problems_iff {problems : List Problem}
    (h : ofGrammar g settings = .error problems) (p : Problem) :
    p ∈ problems ↔ p = .noStartSymbol ∧ g.start = "" ∨ p = .noProductions ∧ g.productions = [] := by
  unfold ofGrammar at h
  split at h
  · exact absurd h (by simp)
  · obtain rfl := Except.error.inj h
    simp only [List.mem_append, List.mem_ite_nil_right, List.mem_singleton, List.isEmpty_iff]
    rw [and_comm, and_comm (a := g.productions = [])]

/-- No problem is reported twice. -/
theorem nodup_problems {problems : List Problem} (h : ofGrammar g settings = .error problems) :
    problems.Nodup := by
  unfold ofGrammar at h
  split at h
  · exact absurd h (by simp)
  · obtain rfl := Except.error.inj h
    split_ifs <;> simp

/-- **A grammar that lacks something cannot be augmented**, and every other one can. -/
theorem exists_error_iff :
    (∃ problems, ofGrammar g settings = .error problems) ↔ g.start = "" ∨ g.productions = [] := by
  constructor
  · rintro ⟨problems, h⟩
    have hne : problems ≠ [] := by
      rintro rfl
      unfold ofGrammar at h
      split at h
      · exact absurd h (by simp)
      · next hproblems => exact hproblems (Except.error.inj h)
    obtain ⟨p, hp⟩ := List.exists_mem_of_ne_nil _ hne
    exact ((mem_problems_iff h p).mp hp).imp And.right And.right
  · rintro (hstart | hproductions)
    · simp [ofGrammar, hstart]
    · by_cases hstart : g.start = "" <;> simp [ofGrammar, hproductions, hstart]

/-! ### What an augmented grammar consists of -/

theorem isAugmentation_of_ofGrammar (h : ofGrammar g settings = .ok A) : A.IsAugmentation g := by
  unfold ofGrammar at h
  split at h
  · obtain rfl := Except.ok.inj h
    refine ⟨rfl, ?_, fun i => ?_, ?_, rfl, fun x => SymbolSet.mem_insert⟩
    · simp [numberProductions, Production.arrow]
    · simp [numberProductions, Function.comp_def, renumber, Nat.add_comm 1 i]
    · exact id_of_getElem?_numberProductions
  · exact absurd h (by simp)

/-- **Augmenting a grammar gives it a fresh start symbol.** A grammar with a start symbol and a
production is augmented: the unbounded search for a fresh symbol comes to an end, at the start
symbol with the least number of markers that make it fresh, the production of the new start symbol
comes first, and the others keep their order. If the grammar was built from rows, the new start
symbol stands on neither side of any of its productions. Any other grammar is refused, with what it
lacks. -/
theorem ofGrammar_fresh (g : Grammar) (settings : Settings) :
    (g.start ≠ "" → g.productions ≠ [] → ∃ A k, ofGrammar g settings = .ok A ∧
      Primes g settings.primeMarker (g.start ++ settings.primeMarker) A.top ∧
      A.top = primed g.start settings.primeMarker k ∧
      IsLeast {k | 1 ≤ k ∧ primed g.start settings.primeMarker k ∉ g.nonTerminals ∧
        primed g.start settings.primeMarker k ∉ g.terminals} k ∧
      A.IsAugmentation g ∧
      ∀ rows, Grammar.ofRows rows = .ok g →
        ∀ i p, A.productions[i + 1]? = some p → p.lhs ≠ A.top ∧ A.top ∉ p.rhs) ∧
    ((∃ problems, ofGrammar g settings = .error problems) ↔ g.start = "" ∨ g.productions = []) ∧
    ∀ problems, ofGrammar g settings = .error problems → problems.Nodup ∧
      ∀ p, p ∈ problems ↔
        p = .noStartSymbol ∧ g.start = "" ∨ p = .noProductions ∧ g.productions = [] := by
  refine ⟨fun hstart hproductions => ?_, exists_error_iff,
    fun problems h => ⟨nodup_problems h, mem_problems_iff h⟩⟩
  cases hA : ofGrammar g settings with
  | error problems =>
    exact absurd (exists_error_iff.mp ⟨problems, hA⟩) (not_or.mpr ⟨hstart, hproductions⟩)
  | ok A =>
    obtain ⟨k, htop, hleast⟩ := exists_isLeast_freshTop g settings.primeMarker_ne
    obtain ⟨htop', -⟩ := ofGrammar_eq_ok hA
    have heq : A.top = primed g.start settings.primeMarker k := htop'.trans htop
    refine ⟨A, k, rfl, heq ▸ primes_of_isLeast hleast, heq, hleast,
      isAugmentation_of_ofGrammar hA, fun rows hrows i p hp => ?_⟩
    have haug := augments_of_ofGrammar (Grammar.wellFormed_of_ofRows hrows) hA
    have hfresh := isFresh_of_ofGrammar hA
    refine ⟨fun hlhs => ?_, hfresh.notMem_rhs haug hp⟩
    exact Nat.succ_ne_zero i ((hfresh.lhs_eq_top_iff haug hp).mp hlhs)

/-- A grammar put together by hand that takes the first two candidates for a fresh start symbol. -/
def crowded : Grammar where
  start := "S"
  nonTerminals := .ofList ["S", "S'"]
  terminals := .ofList ["S''", "a"]
  productions := [⟨7, "S", ["a", "S'''"], "S -> a S'''"⟩, ⟨7, "S'", [], ""⟩]

theorem ofGrammar_fresh_crowded :
    (∃ A, ofGrammar crowded {} = .ok A ∧ Primes crowded "'" "S'" A.top ∧ A.top = "S'''" ∧
      A.productions.map (·.id) = #[0, 1, 2]) ∧
    ∃ A, ofGrammar .brackets {} = .ok A ∧
      ∀ i p, A.productions[i + 1]? = some p → p.lhs ≠ A.top ∧ A.top ∉ p.rhs := by
  constructor
  · obtain ⟨A, k, hA, hprimes, -⟩ := (ofGrammar_fresh crowded {}).1 (by decide) (by decide)
    have hcheck : (ofGrammar crowded {}).toOption.map
        (fun A => (A.top, A.productions.map (·.id))) = some ("S'''", #[0, 1, 2]) := by
      decide +kernel
    rw [hA] at hcheck
    obtain ⟨htop, hids⟩ := Prod.mk.inj (Option.some.inj hcheck)
    exact ⟨A, hA, hprimes, htop, hids⟩
  · obtain ⟨A, k, hA, -, -, -, -, hrows⟩ :=
      (ofGrammar_fresh .brackets {}).1 (by decide) (by decide)
    exact ⟨A, hA, hrows _ Grammar.ofRows_bracketRows⟩

end Augmented

end ShiftReduce

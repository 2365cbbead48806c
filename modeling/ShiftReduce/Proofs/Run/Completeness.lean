import Mathlib.Data.List.Basic
import ShiftReduce.Proofs.Run.Following

/-!
# Every derived input is accepted, in an exact number of steps

On a table without conflicts the machine follows any derivation tree of its input, with one move
for every node, and accepts with one step more. So the run of an input that is derived is known
in advance from any of its trees: it is accepted with that tree if there are as many steps to take
as the tree has nodes and one more, and otherwise it stops at the limit
(`ShiftReduce.Run.ofTokens_complete`).

Since the machine walks in one way only, two trees of one input would leave it in one place with
both of them in hand. So a grammar whose table has no conflicts is unambiguous
(`ShiftReduce.Machine.unambiguous_of_isLR0`).
-/

namespace ShiftReduce

namespace Machine

open Automaton

variable {A : Augmented} {g : Grammar}

/-- **A walk to success**: with one move for each node of a derivation tree the machine comes from
its yield to where it accepts, with that tree if trees are kept. -/
theorem exists_walk_of_derivation (hg : A.Augments g) (hf : A.IsFresh g)
    (hlr0 : (Table.ofAutomaton (ofAugmented A)).isLR0) (keepTrees : Bool) {t : Tree}
    (ht : g.Derivation t) (hlabel : t.label = g.start) :
    ∃ moves m, moves.length = t.size ∧
      Walk (.ofAutomaton (ofAugmented A)) (ofAugmented A) keepTrees (start t.yield) moves m ∧
      m.step (.ofAutomaton (ofAugmented A)) (ofAugmented A) keepTrees = .ok (.accept, .accept) ∧
      m.trees = if keepTrees then [t] else [] := by
  obtain ⟨r, hedge, hheld⟩ := exists_edge_start hg
  rw [← hlabel] at hedge
  have hfollows : Follows A keepTrees t := follows_of_derivation hg hf hlr0 ht
  obtain ⟨moves, hlen, hwalk⟩ :=
    hfollows (start t.yield) [endMarker] r rfl (isReady_endMarker A) hedge
  exact ⟨moves, _, hlen, hwalk, step_of_holds_first hg hlr0 rfl hheld, rfl⟩

/-- **A grammar whose table has no conflicts is unambiguous.** -/
theorem unambiguous_of_isLR0 (hg : A.Augments g) (hf : A.IsFresh g)
    (hlr0 : (Table.ofAutomaton (ofAugmented A)).isLR0) : g.Unambiguous := by
  intro t t' ht ht' hlabel hlabel' hyield
  obtain ⟨moves, m, -, hwalk, hstep, htrees⟩ :=
    exists_walk_of_derivation hg hf hlr0 true ht hlabel
  obtain ⟨moves', m', -, hwalk', hstep', htrees'⟩ :=
    exists_walk_of_derivation hg hf hlr0 true ht' hlabel'
  -- both walks start from one input and halt, so they halt in one machine, which has one tree
  obtain rfl : m = m' := hwalk.halts_unique (hyield ▸ hwalk')
    (halts_of_step hstep fun _ => by simp) (halts_of_step hstep' fun _ => by simp)
  simpa using htrees.symm.trans htrees'

end Machine

namespace Run

open Machine Automaton

/-- **Every derived input is accepted, in an exact number of steps.** Where the table that is
generated for a grammar built from rows has no conflicts, the run of an input with a derivation
tree for the start symbol takes one step for each node and one more, and ends with that tree. If
it may not take so many steps, it takes as many as it may and ends at the limit. In particular no
input has two such trees. -/
theorem ofTokens_complete {rows : List Row} {g : Grammar} {settings : Settings} {a : Automaton}
    (hg : Grammar.ofRows rows = .ok g) (ha : Automaton.ofGrammar g settings = .ok a)
    (hlr0 : (Table.ofAutomaton a).isLR0) :
    (∀ (keepTrees : Bool) (tokens : List Symbol) (t : Tree), g.Derivation t →
      t.label = g.start → t.yield = tokens →
        ((t.size : ℤ) + 1 ≤ settings.maxSteps →
          ∃ trace, Run.ofTokens (.ofAutomaton a) a settings keepTrees tokens =
              .ok ⟨.accepted (if keepTrees then some t else none), trace⟩ ∧
            trace.length = t.size + 1) ∧
        (settings.maxSteps < (t.size : ℤ) + 1 →
          ∃ trace, Run.ofTokens (.ofAutomaton a) a settings keepTrees tokens =
              .ok ⟨.failed (.stepLimit settings.maxSteps), trace⟩ ∧
            (trace.length : ℤ) = max 0 settings.maxSteps)) ∧
      g.Unambiguous := by
  obtain ⟨A, rfl, haug, hfresh⟩ := Automaton.exists_augments hg ha
  refine ⟨?_, unambiguous_of_isLR0 haug hfresh hlr0⟩
  rintro keepTrees _ t ht hlabel rfl
  obtain ⟨moves, m, hlen, hwalk, hstep, htrees⟩ :=
    exists_walk_of_derivation haug hfresh hlr0 keepTrees ht hlabel
  constructor
  · intro hle
    have hlimit : moves.length < settings.maxSteps.toNat := by omega
    obtain ⟨trace, hsteps, hmoves⟩ := steps_of_walk_of_ends hwalk hstep .accept hlimit 1
    refine ⟨trace, ?_, ?_⟩
    · rw [ofTokens_of_steps hlr0 hsteps, Option.getD_some]
      by_cases hkeep : keepTrees = true
      · simp [hkeep, finalTree, htrees]
      · simp [hkeep]
    · rw [← List.length_map (f := (·.move)), hmoves, List.length_append, hlen,
        List.length_singleton]
  · intro hlt
    have hlimit : settings.maxSteps.toNat ≤ moves.length := by omega
    obtain ⟨trace, hsteps, hcount⟩ := steps_of_walk_of_le hwalk hlimit 1
    refine ⟨trace, ?_, ?_⟩
    · rw [ofTokens_of_steps hlr0 hsteps]
      rfl
    · rw [hcount]
      omega

/-- A derivation tree of the small grammar, with an empty node. -/
theorem derivation_brackets : Grammar.brackets.Derivation
    (.branch "S" [.leaf "a", .branch "S" [.leaf "c"], .branch "E" [], .leaf "b"]) := by
  have hinner : Grammar.brackets.Derivation (.branch "S" [.leaf "c"]) := by
    refine .branch (by decide) fun t ht => ?_
    obtain rfl := List.mem_singleton.mp ht
    exact .leaf (by decide)
  have hempty : Grammar.brackets.Derivation (.branch "E" []) := .branch (by decide) (by simp)
  refine .branch (by decide) fun t ht => ?_
  simp only [List.mem_cons, List.not_mem_nil, or_false] at ht
  rcases ht with rfl | rfl | rfl | rfl
  · exact .leaf (by decide)
  · exact hinner
  · exact hempty
  · exact .leaf (by decide)

theorem ofTokens_complete_brackets :
    Grammar.brackets.Unambiguous ∧
      ∃ trace, Run.ofTokens (.ofAutomaton (.ofAugmented .brackets)) (.ofAugmented .brackets) {}
          true ["a", "c", "b"] =
        .ok ⟨.accepted (some (.branch "S" [.leaf "a", .branch "S" [.leaf "c"], .branch "E" [],
          .leaf "b"])), trace⟩ ∧ trace.length = 7 := by
  obtain ⟨hruns, hunambiguous⟩ := ofTokens_complete Grammar.ofRows_bracketRows
    Automaton.ofGrammar_brackets Table.isLR0_brackets
  refine ⟨hunambiguous, ?_⟩
  exact (hruns true ["a", "c", "b"] _ derivation_brackets rfl (by simp)).1 (by simp)

end Run

end ShiftReduce

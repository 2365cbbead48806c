import Mathlib.Data.List.Chain
import ShiftReduce.Proofs.Run.Track

/-!
# Runs on generated tables are safe

A table written by hand can lead a machine astray in four ways: no state to go to after a
reduction, too few symbols on the stack, a production that the grammar does not have, and an input
that is used up. On the table of its own automaton a grammar that was built from rows meets none
of them, whatever the settings, the input and the conflicts are
(`ShiftReduce.Run.ofTokens_safe`).

What keeps a run safe is said of the stack as the trace shows it, from the bottom on and with the
start state: it is a path of the automaton (`ShiftReduce.Automaton.IsPathStack`), and it supports
every reduction that is made on it (`ShiftReduce.Automaton.Supports`).
-/

namespace ShiftReduce

/-! ### Stacks as the trace shows them -/

namespace Automaton

/-- **A stack as the trace shows it is a path**: it begins with the start state, which has no
symbol, and every further entry is entered over its symbol from the entry before it. -/
def IsPathStack (m : Automaton) (stack : List (ℤ × Option Symbol)) : Prop :=
  stack.head? = some (m.startState, none) ∧
    stack.IsChain fun e e' => ∃ X, e'.2 = some X ∧ m.Edge e.1 X e'.1

/-- **A stack supports a reduction**: the symbols of its last entries are the right-hand side, the
state below them holds the production with the dot at the start, and the table has a state to go
to from there over the left-hand side. -/
def Supports (m : Automaton) (stack : List (ℤ × Option Symbol)) (number : ℤ) (p : Production) :
    Prop :=
  ∃ (k : ℕ) (below top : List (ℤ × Option Symbol)) (e : ℤ × Option Symbol),
    number = k ∧ m.grammar.productions[k]? = some p ∧ stack = below ++ top ∧
      top.map Prod.snd = p.rhs.map some ∧ below.getLast? = some e ∧ m.Holds e.1 ⟨k, 0⟩ ∧
      ∃ r, (Table.ofAutomaton m).goto.get? ⟨e.1, p.lhs⟩ = some r

end Automaton

namespace Machine

open Automaton

/-- The entries of a stack from the bottom on, the start state included. -/
def entries (a : Automaton) (frames : List Frame) : List (ℤ × Option Symbol) :=
  (a.startState, none) :: frames.reverse.map fun f => (f.state, some f.symbol)

theorem entries_append (a : Automaton) (top below : List Frame) :
    entries a (top ++ below) =
      entries a below ++ top.reverse.map fun f => (f.state, some f.symbol) := by
  simp [entries]

/-- The last entry has the state on top. -/
theorem exists_getLast?_entries (a : Automaton) (frames : List Frame) :
    ∃ x, (entries a frames).getLast? = some (topState a frames, x) := by
  cases frames with
  | nil => exact ⟨none, rfl⟩
  | cons f below =>
    refine ⟨some f.symbol, ?_⟩
    rw [← List.singleton_append, entries_append]
    simp [topState]

theorem isPathStack_entries {m : Automaton} {frames : List Frame} (h : m.IsPath frames) :
    m.IsPathStack (entries m frames) := by
  refine ⟨rfl, ?_⟩
  induction frames with
  | nil => exact List.isChain_singleton _
  | cons f below ih =>
    obtain ⟨hedge, hbelow⟩ := h
    rw [← List.singleton_append, entries_append, List.isChain_append]
    refine ⟨ih hbelow, by simp, fun e he e' he' => ?_⟩
    obtain ⟨x, hlast⟩ := exists_getLast?_entries m below
    obtain rfl : (topState m below, x) = e := Option.some.inj (hlast.symm.trans he)
    obtain rfl : (f.state, some f.symbol) = e' := by simpa using he'
    exact ⟨f.symbol, rfl, hedge⟩

variable {A : Augmented} {g : Grammar} {keepTrees : Bool} {m : Machine} {next : Next}

/-- What a reduction finds on the stack. -/
theorem Makes.supports {a : Automaton} {number : ℤ} {p : Production}
    (h : Makes a keepTrees m (.reduce number p) next) :
    a.Supports (entries a m.frames) number p := by
  cases h with
  | @reduce k _ top below r hp _ hframes hword hbelow _ hgoto =>
    obtain ⟨x, hlast⟩ := exists_getLast?_entries a below
    refine ⟨k, entries a below, top.reverse.map fun f => (f.state, some f.symbol),
      (topState a below, x), rfl, hp, ?_, ?_, hlast, hbelow, r, hgoto⟩
    · rw [hframes, entries_append]
    · rw [← hword, stackWord, List.map_map, ← List.map_reverse, List.map_map]
      rfl

end Machine

namespace Run

open Machine Automaton

variable {A : Augmented} {g : Grammar} {settings : Settings} {keepTrees : Bool}
  {tokens : List Symbol} {r : Run}

/-! ### Whole runs -/

/-- A run on the table of an automaton has an outcome. -/
theorem exists_ofTokens (hg : A.Augments g) (settings : Settings) (keepTrees : Bool)
    (tokens : List Symbol) :
    ∃ r, ofTokens (.ofAutomaton (ofAugmented A)) (ofAugmented A) settings keepTrees tokens =
      .ok r := by
  by_cases hlr0 : (Table.ofAutomaton (ofAugmented A)).isLR0
  · have hstep : ∀ m, OnTrack (ofAugmented A) m →
        ∃ r, m.step (.ofAutomaton (ofAugmented A)) (ofAugmented A) keepTrees = .ok r := by
      intro m hm
      obtain ⟨move, next, hstep, -⟩ := hm.exists_makes hg keepTrees
      exact ⟨_, hstep⟩
    obtain ⟨⟨trace, outcome⟩, hsteps⟩ := exists_steps (fun m m' move hm hgo => hm.step hg hgo)
      hstep (onTrack_start (ofAugmented A) tokens) settings.maxSteps.toNat 1
    exact ⟨_, ofTokens_of_steps hlr0 hsteps⟩
  · exact ⟨_, if_neg hlr0⟩

/-- A grammar that was built from rows has an automaton, and every run on its table has an
outcome. -/
theorem exists_run {rows : List Row} (hg : Grammar.ofRows rows = .ok g) (settings : Settings)
    (keepTrees : Bool) (tokens : List Symbol) :
    ∃ a r, Automaton.ofGrammar g settings = .ok a ∧
      ofTokens (.ofAutomaton a) a settings keepTrees tokens = .ok r := by
  obtain ⟨a, ha⟩ := Automaton.exists_ofGrammar hg settings
  obtain ⟨A, rfl, haug, -⟩ := Automaton.exists_augments hg ha
  obtain ⟨r, hr⟩ := exists_ofTokens haug settings keepTrees tokens
  exact ⟨ofAugmented A, r, ha, hr⟩

/-- How a run on the table of an automaton can fail. -/
theorem failure_cases (hg : A.Augments g)
    (h : ofTokens (.ofAutomaton (ofAugmented A)) (ofAugmented A) settings keepTrees tokens = .ok r)
    {f : Failure} (hf : r.outcome = .failed f) :
    (∃ n, f = .stepLimit n) ∨ ∃ x q, f = .unexpectedToken x q := by
  by_cases hlimit : ∃ n, f = .stepLimit n
  · exact Or.inl hlimit
  obtain ⟨-, moves, m, move, next, hwalk, hlast, hends, -⟩ := exists_walk_of_ofTokens h
    (fun n => by simp [hf]) (fun n hn => hlimit ⟨n, by simpa [hf] using hn⟩)
  rw [hf] at hends
  cases hends
  obtain ⟨x, rest, -, rfl, -⟩ :=
    ((hwalk.onTrack hg (onTrack_start _ tokens)).makes hg hlast).reject_cases
  exact Or.inr ⟨x, _, rfl⟩

/-- **Runs on generated tables are safe.** A grammar that was built from rows has an automaton, and
every run on its table has an outcome, which is neither a missing state nor a stack that is too
short. In every step of every run the stack is a path of the automaton and supports the reduction,
if that is what the step does. -/
theorem ofTokens_safe {rows : List Row} {g : Grammar} (hg : Grammar.ofRows rows = .ok g)
    (settings : Settings) (keepTrees : Bool) (tokens : List Symbol) :
    ∃ a r, Automaton.ofGrammar g settings = .ok a ∧
      Run.ofTokens (.ofAutomaton a) a settings keepTrees tokens = .ok r ∧
      (∀ lhs state, r.outcome ≠ .failed (.gotoMissing lhs state)) ∧
      r.outcome ≠ .failed .stackUnderflow ∧
      ∀ s ∈ r.trace, a.IsPathStack s.stack ∧
        ∀ number p, s.move = .reduce number p → a.Supports s.stack number p := by
  obtain ⟨a, ha⟩ := Automaton.exists_ofGrammar hg settings
  obtain ⟨A, rfl, haug, -⟩ := Automaton.exists_augments hg ha
  obtain ⟨r, hr⟩ := exists_ofTokens haug settings keepTrees tokens
  refine ⟨ofAugmented A, r, ha, hr, ?_, ?_, fun s hs => ?_⟩
  · intro lhs state hout
    rcases failure_cases haug hr hout with ⟨n, hn⟩ | ⟨x, q, hx⟩
    · exact absurd hn (by simp)
    · exact absurd hx (by simp)
  · intro hout
    rcases failure_cases haug hr hout with ⟨n, hn⟩ | ⟨x, q, hx⟩
    · exact absurd hn (by simp)
    · exact absurd hx (by simp)
  · obtain ⟨moves, m, next, hwalk, hshows, hstep⟩ := exists_walk_of_mem_trace hr hs
    have htrack := hwalk.onTrack haug (onTrack_start _ tokens)
    have hstack : s.stack = entries (ofAugmented A) m.frames := by
      rw [Step.stack, hshows.bottom, hshows.frames]
      rfl
    rw [hstack]
    refine ⟨isPathStack_entries htrack.path, fun number p hmove => ?_⟩
    rw [hmove] at hstep
    exact (htrack.makes haug hstep).supports

theorem ofTokens_safe_brackets :
    Grammar.ofRows Grammar.bracketRows = .ok .brackets ∧
      ∃ a r, Automaton.ofGrammar .brackets {} = .ok a ∧
        Run.ofTokens (.ofAutomaton a) a {} true ["a", "c", "b"] = .ok r ∧
        r.outcome ≠ .failed .stackUnderflow ∧ ∀ s ∈ r.trace, a.IsPathStack s.stack := by
  obtain ⟨a, r, ha, hr, -, hunder, hsteps⟩ :=
    ofTokens_safe Grammar.ofRows_bracketRows {} true ["a", "c", "b"]
  exact ⟨Grammar.ofRows_bracketRows, a, r, ha, hr, hunder, fun s hs => (hsteps s hs).1⟩

end Run

end ShiftReduce

import Mathlib.Data.List.Chain
import Mathlib.Data.List.Range
import ShiftReduce.Proofs.Run.Walk

/-!
# What a run records

A run records every step with its number and with the stack and the input that the step finds. The
recorded steps are those of the machine, one after the other: the numbers count them
(`ShiftReduce.Run.map_number_of_steps`), the first finds the machine that the run begins with
(`ShiftReduce.Run.shows_head_of_steps`), each of the others finds what the one before it leads to
(`ShiftReduce.Run.isChain_of_steps`), and what the last one leads to is the end of the run
(`ShiftReduce.Run.getLast?_of_steps`).

What is recorded stays as it is: with a smaller limit a run records the same steps, but fewer of
them (`ShiftReduce.Run.steps_take`). And a run has no outcome exactly if the machine comes to a
point where it has no step, and the limit leaves room for one
(`ShiftReduce.Run.steps_eq_error_iff`).
-/

namespace ShiftReduce

namespace Run

open Machine

variable {t : Table} {a : Automaton} {keepTrees : Bool} {limit number : ℕ} {m : Machine}
  {trace : List Step} {outcome : Option Outcome}

/-! ### One step after the other -/

/-- **The steps are counted** from the number of the first. -/
theorem map_number_of_steps (h : steps t a keepTrees limit number m = .ok (trace, outcome)) :
    trace.map (·.number) = List.range' number trace.length := by
  induction limit generalizing number m trace with
  | zero =>
    obtain ⟨rfl, rfl⟩ := Prod.mk.inj (Except.ok.inj h)
    rfl
  | succ limit ih =>
    obtain ⟨move, next, -, ⟨m', later, -, hlater, rfl⟩ | ⟨o, -, -, rfl⟩⟩ := steps_succ_cases h
    · rw [List.map_cons, ih hlater, List.length_cons, List.range'_succ]
    · rfl

/-- **The first step finds the machine** that the run begins with. -/
theorem shows_head_of_steps (h : steps t a keepTrees limit number m = .ok (trace, outcome)) :
    ∀ s ∈ trace.head?, s.Shows a m := by
  cases limit with
  | zero =>
    obtain ⟨rfl, rfl⟩ := Prod.mk.inj (Except.ok.inj h)
    simp
  | succ limit =>
    obtain ⟨move, next, -, ⟨m', later, -, -, rfl⟩ | ⟨o, -, -, rfl⟩⟩ := steps_succ_cases h
    · rintro s ⟨⟩
      exact ⟨rfl, rfl, rfl⟩
    · rintro s ⟨⟩
      exact ⟨rfl, rfl, rfl⟩

/-- **Every step finds what the one before it leads to.** -/
theorem isChain_of_steps (h : steps t a keepTrees limit number m = .ok (trace, outcome)) :
    trace.IsChain fun s s' => ∃ m m', s.Shows a m ∧
      m.step t a keepTrees = .ok (s.move, .go m') ∧ s'.Shows a m' := by
  induction limit generalizing number m trace with
  | zero =>
    obtain ⟨rfl, rfl⟩ := Prod.mk.inj (Except.ok.inj h)
    exact List.isChain_nil
  | succ limit ih =>
    obtain ⟨move, next, hstep, ⟨m', later, rfl, hlater, rfl⟩ | ⟨o, -, -, rfl⟩⟩ :=
      steps_succ_cases h
    · rw [List.isChain_cons]
      exact ⟨fun s' hs' => ⟨m, m', ⟨rfl, rfl, rfl⟩, hstep, shows_head_of_steps hlater s' hs'⟩,
        ih hlater⟩
    · exact List.isChain_singleton _

/-- **What the last step leads to is the end of the run**, or the limit is. -/
theorem getLast?_of_steps (h : steps t a keepTrees limit number m = .ok (trace, outcome)) :
    ∀ s ∈ trace.getLast?, ∃ m next, s.Shows a m ∧ m.step t a keepTrees = .ok (s.move, next) ∧
      ((outcome = none ∧ ∃ m', next = .go m') ∨
        ∃ o, outcome = some o ∧ Ends a.grammar keepTrees m next o) := by
  induction limit generalizing number m trace with
  | zero =>
    obtain ⟨rfl, rfl⟩ := Prod.mk.inj (Except.ok.inj h)
    simp
  | succ limit ih =>
    intro s hs
    obtain ⟨move, next, hstep, ⟨m', later, rfl, hlater, rfl⟩ | ⟨o, hends, rfl, rfl⟩⟩ :=
      steps_succ_cases h
    · cases hlast : later.getLast? with
      | some s' =>
        rw [List.getLast?_cons, hlast, Option.getD_some] at hs
        obtain rfl := Option.some.inj hs
        exact ih hlater s' hlast
      | none =>
        -- nothing is recorded behind a step that goes on only if the limit is reached
        obtain rfl := List.getLast?_eq_none_iff.mp hlast
        obtain rfl := Option.some.inj hs
        refine ⟨m, .go m', ⟨rfl, rfl, rfl⟩, hstep, Or.inl ⟨?_, m', rfl⟩⟩
        obtain ⟨_, _, -, ⟨hnone, -⟩ | ⟨_, _, _, -, -, -, -, hget⟩⟩ := exists_walk_of_steps hlater
        · exact hnone
        · exact absurd hget (by simp)
    · obtain rfl := Option.some.inj hs
      exact ⟨m, next, ⟨rfl, rfl, rfl⟩, hstep, Or.inr ⟨o, rfl, hends⟩⟩

/-- The last step of a run that has an outcome leads to it. -/
theorem exists_ends_of_steps {o : Outcome}
    (h : steps t a keepTrees limit number m = .ok (trace, some o)) :
    ∃ s ∈ trace.getLast?, ∃ m next, s.Shows a m ∧ m.step t a keepTrees = .ok (s.move, next) ∧
      Ends a.grammar keepTrees m next o := by
  obtain ⟨s, hs⟩ : ∃ s, trace.getLast? = some s := by
    obtain ⟨_, _, -, ⟨hnone, -⟩ | ⟨_, _, _, -, -, -, -, hget⟩⟩ := exists_walk_of_steps h
    · exact absurd hnone (by simp)
    · exact ⟨_, hget⟩
  obtain ⟨m, next, hshows, hstep, ⟨hnone, -⟩ | ⟨o', ho, hends⟩⟩ := getLast?_of_steps h s hs
  · exact absurd hnone (by simp)
  · obtain rfl := Option.some.inj ho
    exact ⟨s, hs, m, next, hshows, hstep, hends⟩

/-- A run whose last step stops the machine has the outcome that goes with it. -/
theorem eq_some_of_getLast? (h : steps t a keepTrees limit number m = .ok (trace, outcome))
    {s : Step} (hs : s ∈ trace.getLast?) :
    ∃ m next, s.Shows a m ∧ m.step t a keepTrees = .ok (s.move, next) ∧
      ∀ o, Ends a.grammar keepTrees m next o → outcome = some o := by
  obtain ⟨m, next, hshows, hstep, hend⟩ := getLast?_of_steps h s hs
  refine ⟨m, next, hshows, hstep, fun o hends => ?_⟩
  obtain ⟨-, m', rfl⟩ | ⟨o', rfl, hends'⟩ := hend
  · exact absurd rfl hends.ne_go
  · cases hends with
    | accept => cases hends'; rfl
    | fail => cases hends'; rfl

/-- A run that the limit ends has as many steps. -/
theorem length_of_steps (h : steps t a keepTrees limit number m = .ok (trace, none)) :
    trace.length = limit := by
  obtain ⟨moves, _, -, ⟨-, hlen, hmoves⟩ | ⟨_, _, _, -, -, hsome, -⟩⟩ := exists_walk_of_steps h
  · rw [← hlen, ← hmoves, List.length_map]
  · exact absurd hsome (by simp)

/-! ### Other limits -/

/-- **With a smaller limit a run records the same steps**, but fewer of them. -/
theorem steps_take (h : steps t a keepTrees limit number m = .ok (trace, outcome)) {n : ℕ}
    (hle : n ≤ limit) :
    ∃ outcome', steps t a keepTrees n number m = .ok (trace.take n, outcome') := by
  induction n generalizing limit number m trace with
  | zero => exact ⟨none, by simp [steps]⟩
  | succ n ih =>
    obtain ⟨limit, rfl⟩ : ∃ k, limit = k + 1 := ⟨limit - 1, by omega⟩
    obtain ⟨move, next, hstep, ⟨m', later, rfl, hlater, rfl⟩ | ⟨o, hends, rfl, rfl⟩⟩ :=
      steps_succ_cases h
    · obtain ⟨outcome', hless⟩ := ih hlater (by omega)
      exact ⟨outcome', by rw [steps_succ_go hstep, hless]; rfl⟩
    · exact ⟨some o, by rw [steps_succ_ends hstep hends, List.take_succ_cons, List.take_nil]⟩

/-- **A run has no outcome exactly if it comes to a machine without a step** before the limit. -/
theorem steps_eq_error_iff {fault : Fault} :
    steps t a keepTrees limit number m = .error fault ↔
      ∃ moves m', Walk t a keepTrees m moves m' ∧ moves.length < limit ∧
        m'.step t a keepTrees = .error fault := by
  constructor
  · intro h
    induction limit generalizing number m with
    | zero => exact absurd h (by simp [steps])
    | succ limit ih =>
      rcases hstep : m.step t a keepTrees with fault' | ⟨move, next⟩
      · rw [steps, hstep] at h
        obtain rfl := Except.error.inj h
        exact ⟨[], m, .nil, Nat.zero_lt_succ _, hstep⟩
      cases next with
      | go m' =>
        rw [steps_succ_go hstep] at h
        cases hlater : steps t a keepTrees limit (number + 1) m' with
        | ok r => simp [hlater, Except.map] at h
        | error fault' =>
          rw [hlater] at h
          obtain rfl := Except.error.inj h
          obtain ⟨moves, m'', hwalk, hlen, hfault⟩ := ih hlater
          exact ⟨move :: moves, m'', .cons hstep hwalk, Nat.succ_lt_succ hlen, hfault⟩
      | accept => simp [steps_succ_ends hstep .accept] at h
      | fail f => simp [steps_succ_ends hstep .fail] at h
  · rintro ⟨moves, m', hwalk, hlen, hfault⟩
    obtain ⟨extra, rfl⟩ : ∃ extra, limit = moves.length + (extra + 1) :=
      ⟨limit - moves.length - 1, by omega⟩
    obtain ⟨seen, -, hsteps⟩ := steps_of_walk hwalk number
    rw [hsteps, steps, hfault]
    rfl

end Run

end ShiftReduce

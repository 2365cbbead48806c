import Mathlib.Data.List.Basic
import ShiftReduce.Run.Trace

/-!
# Walks of a machine and the steps of a run

A run counts its steps, records them and stops at a limit; what it is about is the machine that
goes on from one state to the next. `ShiftReduce.Machine.Walk` is that part alone: some machine
goes on to another one, with the moves it makes on the way. This file takes a run apart into a
walk and its end, for any table and any grammar.

* A run that has an outcome is a walk with a last step at which the machine stops; a run without
  one is a walk of as many moves as the limit (`ShiftReduce.Run.exists_walk_of_steps`). Every
  recorded step is found at the end of some walk (`ShiftReduce.Run.exists_walk_of_mem`).
* Conversely, the steps of a run begin with the moves of any walk that the limit leaves room for
  (`ShiftReduce.Run.steps_of_walk`), so a walk says how a run begins, and one that ends where
  the machine stops says how it ends.

A whole run is blocked by conflicts or takes such steps from the start
(`ShiftReduce.Run.ofTokens_cases`).

A machine has one way to go on, so of two walks from one machine the shorter is the beginning of
the longer (`ShiftReduce.Machine.Walk.exists_rest`). A machine that comes to no halt walks on and
on (`ShiftReduce.Machine.exists_walk_of_not_halts`), but only for so long does it read
(`ShiftReduce.Machine.exists_walk_input_eq`).
-/

namespace ShiftReduce

/-- The symbol that a move shifts, if it shifts one: the first symbol of the input. -/
def Move.shifted? : Move → List Symbol → Option Symbol
  | shift _, input => input.head?
  | _, _ => none

/-- The symbol that a recorded step shifts, if it shifts one. -/
def Step.shifted? (s : Step) : Option Symbol :=
  s.move.shifted? s.input

/-- **The recorded step finds this machine**, above the start state of the automaton. -/
structure Step.Shows (a : Automaton) (s : Step) (m : Machine) : Prop where
  /-- The bottom of the stack is the start state. -/
  bottom : s.bottom = a.startState
  /-- The stack is that of the machine. -/
  frames : s.frames = m.frames
  /-- The input is that of the machine. -/
  input : s.input = m.input

/-- The tokens that the steps of a run shift. -/
def Run.shifted (r : Run) : List Symbol :=
  r.trace.filterMap Step.shifted?

namespace Machine

variable {t : Table} {a : Automaton} {keepTrees : Bool}

/-! ### Walks -/

/-- **A walk**: the machine goes on from one state to another, with the moves on the way. -/
inductive Walk (t : Table) (a : Automaton) (keepTrees : Bool) :
    Machine → List Move → Machine → Prop
  /-- The machine stays where it is. -/
  | nil {m : Machine} : Walk t a keepTrees m [] m
  /-- The machine goes on, and walks from there. -/
  | cons {m m' m'' : Machine} {move : Move} {moves : List Move} :
      m.step t a keepTrees = .ok (move, .go m') → Walk t a keepTrees m' moves m'' →
      Walk t a keepTrees m (move :: moves) m''

theorem Walk.single {m m' : Machine} {move : Move}
    (h : m.step t a keepTrees = .ok (move, .go m')) : Walk t a keepTrees m [move] m' :=
  .cons h .nil

theorem Walk.append {m m' m'' : Machine} {moves later : List Move}
    (h : Walk t a keepTrees m moves m') (h' : Walk t a keepTrees m' later m'') :
    Walk t a keepTrees m (moves ++ later) m'' := by
  induction h with
  | nil => exact h'
  | cons hstep _ ih => exact .cons hstep (ih h')

/-- **What every step keeps, a walk keeps.** -/
theorem Walk.invariant {motive : Machine → Prop} {m m' : Machine} {moves : List Move}
    (h : Walk t a keepTrees m moves m')
    (hstep : ∀ m m' move, motive m → m.step t a keepTrees = .ok (move, .go m') → motive m')
    (hm : motive m) : motive m' := by
  induction h with
  | nil => exact hm
  | cons hgo _ ih => exact ih (hstep _ _ _ hm hgo)

/-- A walk can be broken off after any number of its moves. -/
theorem Walk.exists_take {m m' : Machine} {moves : List Move}
    (h : Walk t a keepTrees m moves m') (n : ℕ) :
    ∃ m'', Walk t a keepTrees m (moves.take n) m'' := by
  induction h generalizing n with
  | nil => exact ⟨_, by simpa using Walk.nil⟩
  | cons hstep _ ih =>
    cases n with
    | zero => exact ⟨_, .nil⟩
    | succ n =>
      obtain ⟨m'', hm''⟩ := ih n
      exact ⟨m'', .cons hstep hm''⟩

/-- **Of two walks from one machine the shorter is the beginning of the longer.** -/
theorem Walk.exists_rest {m m₁ m₂ : Machine} {us vs : List Move}
    (h₁ : Walk t a keepTrees m us m₁) (h₂ : Walk t a keepTrees m vs m₂)
    (hle : us.length ≤ vs.length) : ∃ ws, Walk t a keepTrees m₁ ws m₂ := by
  induction h₁ generalizing vs with
  | nil => exact ⟨vs, h₂⟩
  | cons hstep _ ih =>
    cases h₂ with
    | nil => exact absurd hle (by simp)
    | cons hstep' h₂ =>
      obtain ⟨rfl, rfl⟩ : _ = _ ∧ _ = _ := by simpa using hstep.symm.trans hstep'
      exact ih h₂ (by simpa using hle)

/-- The machine does not go on. -/
def Halts (t : Table) (a : Automaton) (keepTrees : Bool) (m : Machine) : Prop :=
  ∀ move m', m.step t a keepTrees ≠ .ok (move, .go m')

theorem Walk.eq_of_halts {m m' : Machine} {moves : List Move}
    (h : Walk t a keepTrees m moves m') (hm : Halts t a keepTrees m) : m = m' := by
  cases h with
  | nil => rfl
  | cons hstep _ => exact absurd hstep (hm _ _)

/-- **All walks from one machine halt in one machine**, if they do. -/
theorem Walk.halts_unique {m m₁ m₂ : Machine} {us vs : List Move}
    (h₁ : Walk t a keepTrees m us m₁) (h₂ : Walk t a keepTrees m vs m₂)
    (hm₁ : Halts t a keepTrees m₁) (hm₂ : Halts t a keepTrees m₂) : m₁ = m₂ := by
  rcases Nat.le_total us.length vs.length with hle | hle
  · obtain ⟨ws, hws⟩ := h₁.exists_rest h₂ hle
    exact hws.eq_of_halts hm₁
  · obtain ⟨ws, hws⟩ := h₂.exists_rest h₁ hle
    exact (hws.eq_of_halts hm₂).symm

theorem halts_of_step {m : Machine} {move : Move} {next : Next}
    (h : m.step t a keepTrees = .ok (move, next)) (hnext : ∀ m', next ≠ .go m') :
    Halts t a keepTrees m := by
  intro move' m' hgo
  exact hnext m' (Prod.mk.inj (Except.ok.inj (h.symm.trans hgo))).2

/-- **No walk is longer than one to where the machine halts.** -/
theorem Walk.length_le_of_halts {m m₁ m₂ : Machine} {us vs : List Move}
    (h₁ : Walk t a keepTrees m us m₁) (hm₁ : Halts t a keepTrees m₁)
    (h₂ : Walk t a keepTrees m vs m₂) : vs.length ≤ us.length := by
  induction h₁ generalizing vs with
  | nil =>
    cases h₂ with
    | nil => exact Nat.le_refl _
    | cons hstep _ => exact absurd hstep (hm₁ _ _)
  | cons hstep _ ih =>
    cases h₂ with
    | nil => exact Nat.zero_le _
    | cons hstep' h₂ =>
      obtain ⟨rfl, rfl⟩ : _ = _ ∧ _ = _ := by simpa using hstep.symm.trans hstep'
      exact Nat.succ_le_succ (ih hm₁ h₂)

/-- **A machine that does not come to a halt walks on and on.** -/
theorem exists_walk_of_not_halts {m : Machine}
    (h : ¬∃ moves m', Walk t a keepTrees m moves m' ∧ Halts t a keepTrees m') (n : ℕ) :
    ∃ moves m', moves.length = n ∧ Walk t a keepTrees m moves m' := by
  induction n with
  | zero => exact ⟨[], m, rfl, .nil⟩
  | succ n ih =>
    obtain ⟨moves, m', hlen, hwalk⟩ := ih
    obtain ⟨move, m'', hstep⟩ : ∃ move m'', m'.step t a keepTrees = .ok (move, .go m'') := by
      by_contra hstop
      exact h ⟨moves, m', hwalk, fun move m'' hgo => hstop ⟨move, m'', hgo⟩⟩
    exact ⟨moves ++ [move], m'', by simp [hlen], hwalk.append (.single hstep)⟩

/-! ### The input on the way -/

/-- A reduction reads no input. -/
theorem input_of_reduce {m m' : Machine} {p : Production}
    (h : m.reduce t a keepTrees p = .go m') : m'.input = m.input := by
  unfold reduce at h
  by_cases hlt : m.frames.length < p.rhs.length
  · simp [hlt] at h
  · simp only [if_neg hlt] at h
    split at h
    · exact absurd h (by simp)
    · obtain rfl := Next.go.inj h
      rfl

/-- **What a step reads**: a machine that goes on has read the symbol that the move shifts, if it
shifts one, and a machine that stops shifts none. -/
theorem input_of_step {m : Machine} {move : Move} {next : Next}
    (h : m.step t a keepTrees = .ok (move, next)) :
    (∃ m', next = .go m' ∧ m.input = (move.shifted? m.input).toList ++ m'.input) ∨
      (∀ m', next ≠ .go m') ∧ move.shifted? m.input = none := by
  unfold step at h
  split at h
  · exact absurd h (by simp)
  next token rest hinput =>
    split at h
    · obtain ⟨rfl, rfl⟩ := Prod.mk.inj (Except.ok.inj h)
      exact Or.inr ⟨fun m' => by simp, rfl⟩
    next target _ =>
      obtain ⟨rfl, rfl⟩ := Prod.mk.inj (Except.ok.inj h)
      exact Or.inl ⟨_, rfl, by simp [Move.shifted?, shift, hinput]⟩
    next number _ =>
      split at h
      · exact absurd h (by simp)
      next p _ =>
        obtain ⟨rfl, rfl⟩ := Prod.mk.inj (Except.ok.inj h)
        cases hnext : m.reduce t a keepTrees p with
        | go m' => exact Or.inl ⟨m', rfl, (input_of_reduce hnext).symm⟩
        | accept => exact Or.inr ⟨fun m' => by simp, rfl⟩
        | fail f => exact Or.inr ⟨fun m' => by simp, rfl⟩
    · obtain ⟨rfl, rfl⟩ := Prod.mk.inj (Except.ok.inj h)
      exact Or.inr ⟨fun m' => by simp, rfl⟩

theorem input_of_step_go {m m' : Machine} {move : Move}
    (h : m.step t a keepTrees = .ok (move, .go m')) :
    m.input = (move.shifted? m.input).toList ++ m'.input := by
  rcases input_of_step h with ⟨m'', hgo, hinput⟩ | ⟨hstop, -⟩
  · obtain rfl := Next.go.inj hgo
    exact hinput
  · exact absurd rfl (hstop m')

/-- A walk leaves the end of the input that it began with. -/
theorem Walk.input_suffix {m m' : Machine} {moves : List Move}
    (h : Walk t a keepTrees m moves m') : m'.input <:+ m.input := by
  induction h with
  | nil => exact List.suffix_refl _
  | cons hstep _ ih => exact ih.trans ⟨_, (input_of_step_go hstep).symm⟩

/-- **Every machine comes to a point behind which it reads nothing**: it cannot read for ever. -/
theorem exists_walk_input_eq (t : Table) (a : Automaton) (keepTrees : Bool) (m : Machine) :
    ∃ moves m', Walk t a keepTrees m moves m' ∧
      ∀ later m'', Walk t a keepTrees m' later m'' → m''.input = m'.input := by
  induction hlen : m.input.length using Nat.strongRecOn generalizing m with
  | ind n ih =>
    by_cases hreads : ∃ first m₁, Walk t a keepTrees m first m₁ ∧ m₁.input ≠ m.input
    · obtain ⟨first, m₁, hfirst, hne⟩ := hreads
      have hlt : m₁.input.length < n := by
        rw [← hlen]
        exact Nat.lt_of_le_of_ne hfirst.input_suffix.length_le
          fun heq => hne (hfirst.input_suffix.eq_of_length heq)
      obtain ⟨moves, m', hwalk, hrest⟩ := ih m₁.input.length hlt m₁ rfl
      exact ⟨first ++ moves, m', hfirst.append hwalk, hrest⟩
    · push Not at hreads
      exact ⟨[], m, .nil, hreads⟩

/-- **Where a machine halts it has no more input left than anywhere on its way.** -/
theorem Walk.length_input_le_of_halts {m m₁ m₂ : Machine} {us vs : List Move}
    (h₁ : Walk t a keepTrees m us m₁) (hm₁ : Halts t a keepTrees m₁)
    (h₂ : Walk t a keepTrees m vs m₂) : m₁.input.length ≤ m₂.input.length := by
  rcases Nat.le_total us.length vs.length with hle | hle
  · obtain ⟨ws, hws⟩ := h₁.exists_rest h₂ hle
    obtain rfl := hws.eq_of_halts hm₁
    exact Nat.le_refl _
  · obtain ⟨ws, hws⟩ := h₂.exists_rest h₁ hle
    exact hws.input_suffix.length_le

end Machine

namespace Run

open Machine

variable {t : Table} {a : Automaton} {keepTrees : Bool}

/-! ### One step of a run -/

/-- How a run ends when the machine stops. -/
inductive Ends (g : Augmented) (keepTrees : Bool) (m : Machine) : Next → Outcome → Prop
  /-- The input is accepted with the tree of the machine. -/
  | accept : Ends g keepTrees m .accept
      (.accepted (if keepTrees then some (m.finalTree g) else none))
  /-- The run fails as the machine does. -/
  | fail {f : Failure} : Ends g keepTrees m (.fail f) (.failed f)

theorem steps_succ_go {m m' : Machine} {move : Move}
    (h : m.step t a keepTrees = .ok (move, .go m')) (limit number : ℕ) :
    steps t a keepTrees (limit + 1) number m =
      (steps t a keepTrees limit (number + 1) m').map fun r =>
        (⟨number, a.startState, m.frames, m.input, move⟩ :: r.1, r.2) := by
  rw [steps, h]
  rfl

theorem steps_succ_ends {m : Machine} {move : Move} {next : Next} {outcome : Outcome}
    (h : m.step t a keepTrees = .ok (move, next)) (hends : Ends a.grammar keepTrees m next outcome)
    (limit number : ℕ) :
    steps t a keepTrees (limit + 1) number m =
      .ok ([⟨number, a.startState, m.frames, m.input, move⟩], some outcome) := by
  rw [steps, h]
  cases hends with
  | accept => rfl
  | fail => rfl

/-- **What a run does while it may take a step**: the machine goes on and the run with it, or
both end. -/
theorem steps_succ_cases {limit number : ℕ} {m : Machine} {trace : List Step}
    {outcome : Option Outcome}
    (h : steps t a keepTrees (limit + 1) number m = .ok (trace, outcome)) :
    ∃ move next, m.step t a keepTrees = .ok (move, next) ∧
      ((∃ m' later, next = .go m' ∧
          steps t a keepTrees limit (number + 1) m' = .ok (later, outcome) ∧
          trace = ⟨number, a.startState, m.frames, m.input, move⟩ :: later) ∨
        ∃ o, Ends a.grammar keepTrees m next o ∧ outcome = some o ∧
          trace = [⟨number, a.startState, m.frames, m.input, move⟩]) := by
  rcases hstep : m.step t a keepTrees with fault | ⟨move, next⟩
  · rw [steps, hstep] at h
    exact absurd h (by simp [bind, Except.bind])
  refine ⟨move, next, rfl, ?_⟩
  cases next with
  | go m' =>
    rw [steps_succ_go hstep] at h
    rcases hlater : steps t a keepTrees limit (number + 1) m' with fault | ⟨later, outcome'⟩
    · rw [hlater] at h
      exact absurd h (by simp [Except.map])
    · rw [hlater] at h
      obtain ⟨rfl, rfl⟩ := Prod.mk.inj (Except.ok.inj h)
      exact Or.inl ⟨m', later, rfl, hlater, rfl⟩
  | accept =>
    rw [steps_succ_ends hstep .accept] at h
    obtain ⟨rfl, rfl⟩ := Prod.mk.inj (Except.ok.inj h)
    exact Or.inr ⟨_, .accept, rfl, rfl⟩
  | fail f =>
    rw [steps_succ_ends hstep .fail] at h
    obtain ⟨rfl, rfl⟩ := Prod.mk.inj (Except.ok.inj h)
    exact Or.inr ⟨_, .fail, rfl, rfl⟩

/-! ### From a run to a walk -/

/-- **A run is a walk with an end.** Either the limit ends it, after as many moves, or a last step
does, which is recorded with what it finds. -/
theorem exists_walk_of_steps {limit number : ℕ} {m : Machine} {trace : List Step}
    {outcome : Option Outcome}
    (h : steps t a keepTrees limit number m = .ok (trace, outcome)) :
    ∃ moves m', Walk t a keepTrees m moves m' ∧
      ((outcome = none ∧ moves.length = limit ∧ trace.map (·.move) = moves) ∨
        ∃ move next o, m'.step t a keepTrees = .ok (move, next) ∧
          Ends a.grammar keepTrees m' next o ∧ outcome = some o ∧
          trace.map (·.move) = moves ++ [move] ∧
          trace.getLast? =
            some ⟨number + moves.length, a.startState, m'.frames, m'.input, move⟩) := by
  induction limit generalizing number m trace with
  | zero =>
    obtain ⟨rfl, rfl⟩ := Prod.mk.inj (Except.ok.inj h)
    exact ⟨[], m, .nil, Or.inl ⟨rfl, rfl, rfl⟩⟩
  | succ limit ih =>
    obtain ⟨move, next, hstep, ⟨m', later, rfl, hlater, rfl⟩ | ⟨o, hends, rfl, rfl⟩⟩ :=
      steps_succ_cases h
    · obtain ⟨moves, m'', hwalk, hend⟩ := ih hlater
      refine ⟨move :: moves, m'', .cons hstep hwalk, ?_⟩
      rcases hend with ⟨rfl, hlen, hmoves⟩ | ⟨last, next, o, hlast, hends, rfl, hmoves, hget⟩
      · exact Or.inl ⟨rfl, by simp [hlen], by simp [hmoves]⟩
      · refine Or.inr ⟨last, next, o, hlast, hends, rfl, by simp [hmoves], ?_⟩
        rw [List.getLast?_cons, hget, Option.getD_some, List.length_cons, Nat.add_assoc,
          Nat.add_comm 1]
    · exact ⟨[], m, .nil, Or.inr ⟨move, next, o, hstep, hends, rfl, rfl, rfl⟩⟩

/-- **Every recorded step is what the machine does at the end of some walk.** -/
theorem exists_walk_of_mem {limit number : ℕ} {m : Machine} {trace : List Step}
    {outcome : Option Outcome}
    (h : steps t a keepTrees limit number m = .ok (trace, outcome)) {s : Step} (hs : s ∈ trace) :
    ∃ moves m' next, Walk t a keepTrees m moves m' ∧ s.Shows a m' ∧
      m'.step t a keepTrees = .ok (s.move, next) := by
  induction limit generalizing number m trace with
  | zero =>
    obtain ⟨rfl, rfl⟩ := Prod.mk.inj (Except.ok.inj h)
    exact absurd hs List.not_mem_nil
  | succ limit ih =>
    obtain ⟨move, next, hstep, ⟨m', later, rfl, hlater, rfl⟩ | ⟨o, -, -, rfl⟩⟩ :=
      steps_succ_cases h
    · rcases List.mem_cons.mp hs with rfl | hs
      · exact ⟨[], m, .go m', .nil, ⟨rfl, rfl, rfl⟩, hstep⟩
      · obtain ⟨moves, m'', next, hwalk, hshows, hlast⟩ := ih hlater hs
        exact ⟨move :: moves, m'', next, .cons hstep hwalk, hshows, hlast⟩
    · obtain rfl := List.mem_singleton.mp hs
      exact ⟨[], m, next, .nil, ⟨rfl, rfl, rfl⟩, hstep⟩

theorem Ends.ne_go {m m' : Machine} {next : Next} {outcome : Outcome}
    (h : Ends a.grammar keepTrees m next outcome) : next ≠ .go m' := by
  cases h with
  | accept => simp
  | fail => simp

theorem filterMap_shifted?_cons (s : Step) (later : List Step) :
    (s :: later).filterMap Step.shifted? =
      (s.move.shifted? s.input).toList ++ later.filterMap Step.shifted? := by
  cases hs : s.shifted? with
  | none =>
    rw [List.filterMap_cons_none hs, show s.move.shifted? s.input = none from hs]
    rfl
  | some x =>
    rw [List.filterMap_cons_some hs, show s.move.shifted? s.input = some x from hs]
    rfl

/-- **The steps of a run that ends shift the input** up to what the last step finds. -/
theorem input_of_steps {limit number : ℕ} {m : Machine} {trace : List Step} {o : Outcome}
    (h : steps t a keepTrees limit number m = .ok (trace, some o)) {last : Step}
    (hlast : trace.getLast? = some last) :
    m.input = trace.filterMap Step.shifted? ++ last.input := by
  induction limit generalizing number m trace with
  | zero => exact absurd (Prod.mk.inj (Except.ok.inj h)).2 (by simp)
  | succ limit ih =>
    obtain ⟨move, next, hstep, ⟨m', later, rfl, hlater, rfl⟩ | ⟨o', hends, -, rfl⟩⟩ :=
      steps_succ_cases h
    · obtain ⟨moves, m'', -, hend⟩ := exists_walk_of_steps hlater
      obtain ⟨_, hget⟩ : ∃ s, later.getLast? = some s := by
        rcases hend with ⟨hnone, -, -⟩ | ⟨_, _, _, -, -, -, -, hget⟩
        · exact absurd hnone (by simp)
        · exact ⟨_, hget⟩
      have hlast' : later.getLast? = some last := by
        rw [List.getLast?_cons, hget, Option.getD_some] at hlast
        rw [hget, hlast]
      rw [filterMap_shifted?_cons, List.append_assoc, ← ih hlater hlast']
      exact input_of_step_go hstep
    · obtain rfl := Option.some.inj hlast
      rcases input_of_step hstep with ⟨m', rfl, -⟩ | ⟨-, hnone⟩
      · exact absurd rfl hends.ne_go
      · simp [Step.shifted?, hnone]

/-- **A run does not fault** if no machine faults that a property holds of which every step
keeps. -/
theorem exists_steps {motive : Machine → Prop}
    (hstep : ∀ m m' move, motive m → m.step t a keepTrees = .ok (move, .go m') → motive m')
    (hok : ∀ m, motive m → ∃ r, m.step t a keepTrees = .ok r) {m : Machine} (hm : motive m)
    (limit number : ℕ) : ∃ r, steps t a keepTrees limit number m = .ok r := by
  induction limit generalizing number m with
  | zero => exact ⟨_, rfl⟩
  | succ limit ih =>
    obtain ⟨⟨move, next⟩, hm'⟩ := hok m hm
    cases next with
    | go m' =>
      obtain ⟨r, hr⟩ := ih (hstep m m' move hm hm') (number + 1)
      exact ⟨_, by rw [steps_succ_go hm', hr]; rfl⟩
    | accept => exact ⟨_, steps_succ_ends hm' .accept limit number⟩
    | fail f => exact ⟨_, steps_succ_ends hm' .fail limit number⟩

/-! ### From a walk to a run -/

/-- **The steps of a run begin with the moves of a walk**, if the limit leaves room for them. -/
theorem steps_of_walk {m m' : Machine} {moves : List Move} (h : Walk t a keepTrees m moves m')
    (number : ℕ) :
    ∃ seen : List Step, seen.map (·.move) = moves ∧ ∀ limit,
      steps t a keepTrees (moves.length + limit) number m =
        (steps t a keepTrees limit (number + moves.length) m').map fun r =>
          (seen ++ r.1, r.2) := by
  induction h generalizing number with
  | nil =>
    refine ⟨[], rfl, fun limit => ?_⟩
    simp only [List.length_nil, Nat.zero_add, Nat.add_zero, List.nil_append, Prod.eta]
    rcases steps t a keepTrees limit number _ with fault | r <;> rfl
  | @cons m m' m'' move moves hstep hwalk ih =>
    obtain ⟨seen, hseen, hsteps⟩ := ih (number + 1)
    refine ⟨⟨number, a.startState, m.frames, m.input, move⟩ :: seen, by simp [hseen],
      fun limit => ?_⟩
    have hlen : (move :: moves).length + limit = moves.length + limit + 1 := by
      simp only [List.length_cons]
      omega
    have hnumber : number + (move :: moves).length = number + 1 + moves.length := by
      simp only [List.length_cons]
      omega
    rw [hlen, hnumber, steps_succ_go hstep, hsteps]
    rcases steps t a keepTrees limit (number + 1 + moves.length) m'' with fault | r <;> rfl

/-- **A walk that ends where the machine stops gives the whole run**, if the limit leaves room for
one step more than it has moves. -/
theorem steps_of_walk_of_ends {m m' : Machine} {moves : List Move} {move : Move} {next : Next}
    {outcome : Outcome} (h : Walk t a keepTrees m moves m')
    (hlast : m'.step t a keepTrees = .ok (move, next))
    (hends : Ends a.grammar keepTrees m' next outcome) {limit : ℕ}
    (hlimit : moves.length < limit) (number : ℕ) :
    ∃ trace, steps t a keepTrees limit number m = .ok (trace, some outcome) ∧
      trace.map (·.move) = moves ++ [move] := by
  obtain ⟨seen, hseen, hsteps⟩ := steps_of_walk h number
  obtain ⟨extra, rfl⟩ : ∃ extra, limit = moves.length + (extra + 1) :=
    ⟨limit - moves.length - 1, by omega⟩
  refine ⟨seen ++ [⟨number + moves.length, a.startState, m'.frames, m'.input, move⟩], ?_,
    by simp [hseen]⟩
  rw [hsteps, steps_succ_ends hlast hends]
  rfl

/-- **A walk as long as the limit leaves the run without an outcome.** -/
theorem steps_of_walk_of_le {m m' : Machine} {moves : List Move}
    (h : Walk t a keepTrees m moves m') {limit : ℕ} (hlimit : limit ≤ moves.length)
    (number : ℕ) :
    ∃ trace, steps t a keepTrees limit number m = .ok (trace, none) ∧ trace.length = limit := by
  obtain ⟨m'', hwalk⟩ := h.exists_take limit
  obtain ⟨seen, hseen, hsteps⟩ := steps_of_walk hwalk number
  have hlen : (moves.take limit).length = limit := by rw [List.length_take, Nat.min_eq_left hlimit]
  refine ⟨seen ++ [], ?_, ?_⟩
  · have hzero := hsteps 0
    rw [hlen, Nat.add_zero] at hzero
    rw [hzero]
    rfl
  · rw [List.append_nil, ← hlen, ← hseen, List.length_map]

/-! ### Whole runs -/

section OfTokens

variable {settings : Settings} {tokens : List Symbol} {r : Run}

/-- Without conflicts a run is the steps from the start, with the limit as the outcome if there is
no other. -/
theorem ofTokens_eq_map (hlr0 : t.isLR0) (a : Automaton) (settings : Settings) (keepTrees : Bool)
    (tokens : List Symbol) :
    ofTokens t a settings keepTrees tokens =
      (steps t a keepTrees settings.maxSteps.toNat 1 (.start tokens)).map fun r =>
        ⟨r.2.getD (.failed (.stepLimit settings.maxSteps)), r.1⟩ := by
  rw [ofTokens, if_pos hlr0]
  cases steps t a keepTrees settings.maxSteps.toNat 1 (.start tokens) <;> rfl

theorem ofTokens_of_steps {trace : List Step} {outcome : Option Outcome} (hlr0 : t.isLR0)
    (h : steps t a keepTrees settings.maxSteps.toNat 1 (.start tokens) =
      .ok (trace, outcome)) :
    ofTokens t a settings keepTrees tokens =
      .ok ⟨outcome.getD (.failed (.stepLimit settings.maxSteps)), trace⟩ := by
  rw [ofTokens, if_pos hlr0, h]
  rfl

/-- Without conflicts a run takes its steps from the start. -/
theorem exists_steps_of_ofTokens (hlr0 : t.isLR0)
    (h : ofTokens t a settings keepTrees tokens = .ok r) :
    ∃ trace outcome,
      steps t a keepTrees settings.maxSteps.toNat 1 (.start tokens) =
        .ok (trace, outcome) ∧
      r = ⟨outcome.getD (.failed (.stepLimit settings.maxSteps)), trace⟩ := by
  rcases hsteps : steps t a keepTrees settings.maxSteps.toNat 1 (.start tokens) with
    fault | ⟨trace, outcome⟩
  · rw [ofTokens, if_pos hlr0, hsteps] at h
    exact absurd h (by simp [bind, Except.bind])
  · rw [ofTokens_of_steps hlr0 hsteps] at h
    exact ⟨trace, outcome, rfl, (Except.ok.inj h).symm⟩

/-- A run is blocked by conflicts, or it takes its steps from the start. -/
theorem ofTokens_cases (h : ofTokens t a settings keepTrees tokens = .ok r) :
    (r = ⟨.blocked t.conflicts.size, []⟩) ∨
      t.isLR0 ∧ ∃ trace outcome,
        steps t a keepTrees settings.maxSteps.toNat 1 (.start tokens) =
          .ok (trace, outcome) ∧
        r = ⟨outcome.getD (.failed (.stepLimit settings.maxSteps)), trace⟩ := by
  by_cases hlr0 : t.isLR0
  · exact Or.inr ⟨hlr0, exists_steps_of_ofTokens hlr0 h⟩
  · rw [ofTokens, if_neg hlr0] at h
    exact Or.inl (Except.ok.inj h).symm

/-- **Every step in the trace is what the machine does** at the end of a walk from the start. -/
theorem exists_walk_of_mem_trace (h : ofTokens t a settings keepTrees tokens = .ok r) {s : Step}
    (hs : s ∈ r.trace) :
    ∃ moves m next, Walk t a keepTrees (.start tokens) moves m ∧ s.Shows a m ∧
      m.step t a keepTrees = .ok (s.move, next) := by
  obtain rfl | ⟨-, trace, outcome, hsteps, rfl⟩ := ofTokens_cases h
  · exact absurd hs List.not_mem_nil
  · exact exists_walk_of_mem hsteps hs

/-- **A run that neither conflicts nor the limit end is a walk from the start with a last step**
that decides its outcome. -/
theorem exists_walk_of_ofTokens (h : ofTokens t a settings keepTrees tokens = .ok r)
    (hblocked : ∀ n, r.outcome ≠ .blocked n) (hlimit : ∀ n, r.outcome ≠ .failed (.stepLimit n)) :
    t.isLR0 ∧ ∃ moves m move next, Walk t a keepTrees (.start tokens) moves m ∧
      m.step t a keepTrees = .ok (move, next) ∧
      Ends a.grammar keepTrees m next r.outcome ∧ r.trace.map (·.move) = moves ++ [move] ∧
      r.trace.getLast? = some ⟨1 + moves.length, a.startState, m.frames, m.input, move⟩ := by
  obtain rfl | ⟨hlr0, trace, outcome, hsteps, rfl⟩ := ofTokens_cases h
  · exact absurd rfl (hblocked _)
  refine ⟨hlr0, ?_⟩
  obtain ⟨moves, m, hwalk, hend⟩ := exists_walk_of_steps hsteps
  rcases hend with ⟨rfl, -, -⟩ | ⟨move, next, o, hlast, hends, rfl, hmoves, hget⟩
  · exact absurd rfl (hlimit _)
  · exact ⟨moves, m, move, next, hwalk, hlast, hends, hmoves, hget⟩

/-- **The steps of such a run shift the tokens** up to what the last step finds. -/
theorem input_of_ofTokens (h : ofTokens t a settings keepTrees tokens = .ok r)
    (hblocked : ∀ n, r.outcome ≠ .blocked n) (hlimit : ∀ n, r.outcome ≠ .failed (.stepLimit n))
    {last : Step} (hlast : r.trace.getLast? = some last) :
    tokens ++ [endMarker] = r.shifted ++ last.input := by
  obtain rfl | ⟨-, trace, outcome, hsteps, rfl⟩ := ofTokens_cases h
  · exact absurd rfl (hblocked _)
  cases outcome with
  | none => exact absurd rfl (hlimit _)
  | some o => exact input_of_steps hsteps hlast

end OfTokens

end Run

end ShiftReduce

import ShiftReduce.Proofs.Run.Log
import ShiftReduce.Proofs.Run.Safety
import ShiftReduce.Proofs.Run.Step

/-!
# The trace is a faithful log

What a trace shows of a machine is a *snapshot*: the stack from the bottom on, and the input that is
left. To replay a run it is enough to know the snapshots, the table and the productions. A table has
an entry for a snapshot or none (`ShiftReduce.Snapshot.action?`), an entry makes another snapshot of
it (`ShiftReduce.Snapshot.Yields`), and where no entry does, the run fails for a reason that the
snapshot shows (`ShiftReduce.Snapshot.FailsWith`). None of this mentions machines or trees.

On any table without conflicts, generated or written by hand, a trace is such a replay, from the
bare start state and the whole input on, and its last step decides how the run ends
(`ShiftReduce.Run.IsFaithful`). A run has no outcome exactly if the replay comes to a snapshot
without input, or to a reduction of a production that the grammar does not have
(`ShiftReduce.Run.ofTokens_faithful`). Negative numbers of productions are left out here
(`ShiftReduce.Table.NumbersFromZero`).
-/

namespace ShiftReduce

/-- **What a trace shows of a machine.** -/
structure Snapshot where
  /-- The stack from the bottom on, each state with its symbol; the start state has none. -/
  stack : List (ℤ × Option Symbol)
  /-- The input that is left, the end marker included. -/
  input : List Symbol

namespace Snapshot

/-- The snapshot before an input: the bare start state, and the tokens with the end marker behind
them. -/
def first (a : Automaton) (tokens : List Symbol) : Snapshot :=
  ⟨[(a.startState, none)], tokens ++ [endMarker]⟩

/-- **The entry of a table for a snapshot**: that for the state on top and the next symbol. There is
none for an end marker with more input behind it. -/
def action? (t : Table) (s : Snapshot) : Option Action :=
  match s.stack.getLast?, s.input with
  | some (state, _), [x] => t.action.get? ⟨state, x⟩
  | some (state, _), x :: _ :: _ => if x = endMarker then none else t.action.get? ⟨state, x⟩
  | _, _ => none

/-- **What an entry makes of a snapshot.** -/
inductive Yields (t : Table) (a : Automaton) : Snapshot → Action → Snapshot → Prop
  /-- A shift moves the next symbol to the stack. -/
  | shift {stack : List (ℤ × Option Symbol)} {x : Symbol} {rest : List Symbol} {target : ℤ} :
      Yields t a ⟨stack, x :: rest⟩ (.shift target) ⟨stack ++ [(target, some x)], rest⟩
  /-- A reduction takes as many entries off the stack as the production has symbols, and puts the
  left-hand side there with the state to go to from the new top. -/
  | reduce {below top : List (ℤ × Option Symbol)} {input : List Symbol} {k : ℕ} {p : Production}
      {q target : ℤ} {y : Option Symbol} : a.grammar.productions[k]? = some p →
      top.length = p.rhs.length → below.getLast? = some (q, y) →
      t.goto.get? ⟨q, p.lhs⟩ = some target →
      Yields t a ⟨below ++ top, input⟩ (.reduce k) ⟨below ++ [(target, some p.lhs)], input⟩

/-- **Why a run fails at a snapshot.** -/
inductive FailsWith (t : Table) (a : Automaton) : Snapshot → Failure → Prop
  /-- There is no entry. -/
  | unexpectedToken {stack : List (ℤ × Option Symbol)} {x : Symbol} {rest : List Symbol} {q : ℤ}
      {y : Option Symbol} : stack.getLast? = some (q, y) →
      action? t ⟨stack, x :: rest⟩ = none →
      FailsWith t a ⟨stack, x :: rest⟩ (.unexpectedToken x q)
  /-- The production to undo has more symbols than there are on the stack. -/
  | stackUnderflow {s : Snapshot} {k : ℕ} {p : Production} : s.action? t = some (.reduce k) →
      a.grammar.productions[k]? = some p → s.stack.length - 1 < p.rhs.length →
      FailsWith t a s .stackUnderflow
  /-- There is no state to go to from the new top. -/
  | gotoMissing {below top : List (ℤ × Option Symbol)} {input : List Symbol} {k : ℕ}
      {p : Production} {q : ℤ} {y : Option Symbol} :
      action? t ⟨below ++ top, input⟩ = some (.reduce k) → a.grammar.productions[k]? = some p →
      top.length = p.rhs.length → below.getLast? = some (q, y) →
      t.goto.get? ⟨q, p.lhs⟩ = none →
      FailsWith t a ⟨below ++ top, input⟩ (.gotoMissing p.lhs q)

/-- **The replay**: the snapshot that the entries of the table lead to after some number of
steps. -/
inductive Reaches (t : Table) (a : Automaton) (tokens : List Symbol) : ℕ → Snapshot → Prop
  /-- The replay begins before the input. -/
  | first : Reaches t a tokens 0 (first a tokens)
  /-- It goes on as the entry says. -/
  | next {n : ℕ} {s s' : Snapshot} {action : Action} : Reaches t a tokens n s →
      s.action? t = some action → Yields t a s action s' → Reaches t a tokens (n + 1) s'

end Snapshot

/-- No entry of the table names a production by a negative number, which would count from the end
of the grammar. -/
def Table.NumbersFromZero (t : Table) : Prop :=
  ∀ c n, t.action.get? c = some (.reduce n) → 0 ≤ n

/-- What a recorded step shows. -/
def Step.snapshot (s : Step) : Snapshot :=
  ⟨s.stack, s.input⟩

/-- **A run that is faithful to its table**, with the greatest number of steps it may take. -/
structure Run.IsFaithful (t : Table) (a : Automaton) (maxSteps : ℤ) (tokens : List Symbol)
    (r : Run) : Prop where
  /-- The steps are counted from one. -/
  numbers : r.trace.map (·.number) = List.range' 1 r.trace.length
  /-- The first step shows the bare start state and the whole input. -/
  first : ∀ s ∈ r.trace.head?, s.snapshot = .first a tokens
  /-- Every step carries out the entry for what it shows, if there is one. -/
  entry : ∀ s ∈ r.trace, s.move.action? = s.snapshot.action? t
  /-- The production that a step names is that of its entry. -/
  rule : ∀ s ∈ r.trace, ∀ number p, s.move = .reduce number p →
    ∃ k : ℕ, number = k ∧ a.grammar.productions[k]? = some p
  /-- Every step shows what the entry of the step before it makes of what that one shows. -/
  consecutive : r.trace.IsChain fun s s' =>
    ∃ action, s.move.action? = some action ∧ Snapshot.Yields t a s.snapshot action s'.snapshot
  /-- The run accepts exactly if the last entry does. -/
  accepted : (∃ tree, r.outcome = .accepted tree) ↔
    ∃ s ∈ r.trace.getLast?, s.move.action? = some .accept
  /-- The run meets an unexpected token exactly if the last step has no entry. -/
  rejected : (∃ x q, r.outcome = .failed (.unexpectedToken x q)) ↔
    ∃ s ∈ r.trace.getLast?, s.move.action? = none
  /-- The run fails before the limit exactly if the last step shows why. -/
  failed : ∀ f, (∀ n, f ≠ .stepLimit n) →
    (r.outcome = .failed f ↔ ∃ s ∈ r.trace.getLast?, Snapshot.FailsWith t a s.snapshot f)
  /-- Otherwise the limit ends the run. -/
  limit : (¬∃ s ∈ r.trace.getLast?, s.move.action? = some .accept) →
    (¬∃ s ∈ r.trace.getLast?, ∃ f, Snapshot.FailsWith t a s.snapshot f) →
    r.outcome = .failed (.stepLimit maxSteps) ∧ (r.trace.length : ℤ) = max 0 maxSteps

namespace Machine

open Snapshot

/-- What a trace shows of a machine. -/
def snapshot (a : Automaton) (m : Machine) : Snapshot :=
  ⟨entries a m.frames, m.input⟩

variable {t : Table} {a : Automaton} {keepTrees : Bool} {m m' : Machine} {move : Move} {next : Next}
  {s s' : Snapshot}

/-! ### Machines and their snapshots -/

theorem snapshot_start (a : Automaton) (tokens : List Symbol) :
    (start tokens).snapshot a = .first a tokens := rfl

theorem snapshot_of_shows {s : Step} (h : s.Shows a m) : s.snapshot = m.snapshot a := by
  rw [snapshot, entries, ← h.bottom, ← h.frames, ← h.input]
  rfl

/-- **The entry for a machine is that for its snapshot.** -/
theorem action?_snapshot (t : Table) (a : Automaton) (m : Machine) :
    (m.snapshot a).action? t = m.action? t a := by
  obtain ⟨y, hlast⟩ := exists_getLast?_entries a m.frames
  rcases hinput : m.input with _ | ⟨x, _ | ⟨x', rest⟩⟩ <;>
    simp [Snapshot.action?, snapshot, hlast, action?, hinput, lookUp]

/-- A stack whose entries are taken apart is taken apart in the same way. -/
theorem exists_frames_of_entries {frames : List Frame} {below top : List (ℤ × Option Symbol)}
    {q : ℤ} {y : Option Symbol} (h : entries a frames = below ++ top)
    (hlast : below.getLast? = some (q, y)) :
    ∃ topFrames belowFrames, frames = topFrames ++ belowFrames ∧
      topFrames.length = top.length ∧ entries a belowFrames = below ∧
      topState a belowFrames = q := by
  have hbelow : below ≠ [] := fun hnil => by simp [hnil] at hlast
  have hlen : frames.length + 1 = below.length + top.length := by
    simpa [entries] using congrArg List.length h
  have hpos : 0 < below.length := List.length_pos_iff.mpr hbelow
  have htake : (frames.take top.length).length = top.length := by
    rw [List.length_take]
    omega
  have hentries := entries_append a (frames.take top.length) (frames.drop top.length)
  rw [List.take_append_drop, h] at hentries
  obtain ⟨hdrop, -⟩ := List.append_inj' hentries
    (by rw [List.length_map, List.length_reverse, htake])
  refine ⟨_, _, (List.take_append_drop top.length frames).symm, htake, hdrop.symm, ?_⟩
  obtain ⟨y', htop⟩ := exists_getLast?_entries a (frames.drop top.length)
  rw [← hdrop, hlast] at htop
  exact (Prod.mk.inj (Option.some.inj htop)).1.symm

theorem snapshot_shift (x : Symbol) (rest : List Symbol) (target : ℤ) :
    (m.shift keepTrees x rest target).snapshot a =
      ⟨entries a m.frames ++ [(target, some x)], rest⟩ := by
  simp [snapshot, shift, entries]

theorem snapshot_reduced {p : Production} {top below : List Frame} {target : ℤ}
    (hframes : m.frames = top ++ below) (hlen : top.length = p.rhs.length) :
    (m.reduced keepTrees p target).snapshot a =
      ⟨entries a below ++ [(target, some p.lhs)], m.input⟩ := by
  rw [snapshot, frames_reduced hframes hlen]
  simp [entries, reduced]

/-! ### Going on -/

/-- The number of a production to undo is not negative. -/
theorem exists_natCast (hids : t.NumbersFromZero) {number : ℤ}
    (h : m.action? t a = some (.reduce number)) : ∃ k : ℕ, number = k := by
  obtain ⟨x, rest, -, hlook⟩ := exists_of_action? h
  exact Int.eq_ofNat_of_zero_le (hids _ _ (lookUp_eq_some.mp hlook).2)

/-- **A machine that goes on does what the entry makes of its snapshot.** -/
theorem Does.yields (hids : t.NumbersFromZero)
    (h : Does t a keepTrees m move (.go m')) :
    ∃ action, move.action? = some action ∧ Yields t a (m.snapshot a) action (m'.snapshot a) := by
  cases h with
  | @shift x rest target hinput _ =>
    refine ⟨_, rfl, ?_⟩
    rw [snapshot_shift, snapshot, hinput]
    exact .shift
  | @reduce number p top below target hentry hp hframes hlen hgoto =>
    obtain ⟨k, rfl⟩ := exists_natCast hids hentry
    rw [Augmented.production?_natCast] at hp
    obtain ⟨y, hlast⟩ := exists_getLast?_entries a below
    refine ⟨_, rfl, ?_⟩
    rw [snapshot_reduced hframes hlen, snapshot, hframes, entries_append]
    exact .reduce hp (by simpa using hlen) hlast hgoto

/-- **A machine goes on where the entry makes something of its snapshot.** -/
theorem exists_does_of_yields {action : Action} (hs : m.snapshot a = s)
    (hentry : m.action? t a = some action) (h : Yields t a s action s') (keepTrees : Bool) :
    ∃ move m', Does t a keepTrees m move (.go m') ∧ m'.snapshot a = s' := by
  cases h with
  | shift =>
    obtain ⟨hstack, hinput⟩ := Snapshot.mk.inj hs
    exact ⟨_, _, .shift hinput hentry, by rw [snapshot_shift, hstack]⟩
  | reduce hp hlen hlast hgoto =>
    obtain ⟨hstack, hinput⟩ := Snapshot.mk.inj hs
    obtain ⟨topFrames, belowFrames, hframes, htop, hbelow, rfl⟩ :=
      exists_frames_of_entries hstack hlast
    have hsize := htop.trans hlen
    refine ⟨_, _, .reduce hentry ((Augmented.production?_natCast _ _).trans hp) hframes hsize hgoto,
      ?_⟩
    rw [snapshot_reduced hframes hsize, hbelow, hinput]

/-! ### Stopping -/

/-- **A machine that fails does so for a reason that its snapshot shows.** -/
theorem Does.failsWith (hids : t.NumbersFromZero) {f : Failure}
    (h : Does t a keepTrees m move (.fail f)) : FailsWith t a (m.snapshot a) f := by
  cases h with
  | @miss number p top below hentry hp hframes hlen hgoto =>
    obtain ⟨k, rfl⟩ := exists_natCast hids hentry
    rw [Augmented.production?_natCast] at hp
    rw [← action?_snapshot, snapshot, hframes, entries_append] at hentry
    obtain ⟨y, hlast⟩ := exists_getLast?_entries a below
    rw [snapshot, hframes, entries_append]
    exact .gotoMissing hentry hp (by simpa using hlen) hlast hgoto
  | underflow hentry hp hlt =>
    obtain ⟨k, rfl⟩ := exists_natCast hids hentry
    rw [Augmented.production?_natCast] at hp
    exact .stackUnderflow ((action?_snapshot t a m).trans hentry) hp
      (by simpa [snapshot, entries] using hlt)
  | @reject x rest hinput hentry =>
    obtain ⟨y, hlast⟩ := exists_getLast?_entries a m.frames
    rw [← action?_snapshot, snapshot, hinput] at hentry
    rw [snapshot, hinput]
    exact .unexpectedToken hlast hentry

/-- **A machine fails where its snapshot shows a reason.** -/
theorem exists_does_of_failsWith {f : Failure} (hs : m.snapshot a = s) (h : FailsWith t a s f)
    (keepTrees : Bool) : ∃ move, Does t a keepTrees m move (.fail f) := by
  cases h with
  | unexpectedToken hlast hentry =>
    obtain ⟨hstack, hinput⟩ := Snapshot.mk.inj hs
    obtain ⟨y, htop⟩ := exists_getLast?_entries a m.frames
    obtain ⟨rfl, -⟩ := Prod.mk.inj (Option.some.inj (htop.symm.trans (hstack ▸ hlast)))
    rw [← hs, action?_snapshot] at hentry
    exact ⟨_, .reject hinput hentry⟩
  | stackUnderflow hentry hp hlt =>
    rw [← hs, action?_snapshot] at hentry
    refine ⟨_, .underflow hentry ((Augmented.production?_natCast _ _).trans hp) ?_⟩
    rw [← hs] at hlt
    simpa [snapshot, entries] using hlt
  | gotoMissing hentry hp hlen hlast hgoto =>
    obtain ⟨hstack, -⟩ := Snapshot.mk.inj hs
    obtain ⟨topFrames, belowFrames, hframes, htop, -, rfl⟩ :=
      exists_frames_of_entries hstack hlast
    rw [← hs, action?_snapshot] at hentry
    exact ⟨_, .miss hentry ((Augmented.production?_natCast _ _).trans hp) hframes
      (htop.trans hlen) hgoto⟩

/-- The input is used up where the snapshot shows none. -/
theorem faults_inputExhausted_iff : Faults t a m .inputExhausted ↔ (m.snapshot a).input = [] :=
  ⟨fun h => by cases h; assumption, .inputExhausted⟩

/-- A production is unknown where the entry for the snapshot names none of the grammar. -/
theorem faults_unknownProduction_iff (hids : t.NumbersFromZero) {number : ℤ} :
    Faults t a m (.unknownProduction number) ↔
      (m.snapshot a).action? t = some (.reduce number) ∧
        (a.grammar.productions.size : ℤ) ≤ number := by
  rw [action?_snapshot]
  constructor
  · rintro (_ | ⟨hentry, hp⟩)
    obtain ⟨k, rfl⟩ := exists_natCast hids hentry
    rw [Augmented.production?_natCast, Array.getElem?_eq_none_iff] at hp
    exact ⟨hentry, by exact_mod_cast hp⟩
  · rintro ⟨hentry, hsize⟩
    obtain ⟨k, rfl⟩ := exists_natCast hids hentry
    refine .unknownProduction hentry ?_
    rw [Augmented.production?_natCast, Array.getElem?_eq_none_iff]
    exact_mod_cast hsize

/-! ### The replay -/

/-- The replay follows a walk from any machine that it has come to. -/
theorem Walk.reaches (hids : t.NumbersFromZero) {tokens : List Symbol} {moves : List Move} {n : ℕ}
    (hwalk : Walk t a keepTrees m moves m') (h : Reaches t a tokens n (m.snapshot a)) :
    Reaches t a tokens (n + moves.length) (m'.snapshot a) := by
  induction hwalk generalizing n with
  | nil => exact h
  | cons hstep _ ih =>
    have hdoes := does_of_step hstep
    obtain ⟨action, haction, hyields⟩ := hdoes.yields hids
    have hentry := (action?_snapshot t a _).trans (hdoes.action?_eq.trans haction)
    have hlater := ih (.next h hentry hyields)
    rwa [Nat.add_right_comm, Nat.add_assoc, ← List.length_cons] at hlater

/-- **The replay goes where the machine walks.** -/
theorem reaches_iff (hids : t.NumbersFromZero) (keepTrees : Bool) {tokens : List Symbol} {n : ℕ} :
    Reaches t a tokens n s ↔
      ∃ moves m, Walk t a keepTrees (start tokens) moves m ∧ moves.length = n ∧
        m.snapshot a = s := by
  constructor
  · intro h
    induction h with
    | first => exact ⟨[], _, .nil, rfl, snapshot_start a tokens⟩
    | next _ hentry hyields ih =>
      obtain ⟨moves, m, hwalk, rfl, rfl⟩ := ih
      rw [action?_snapshot] at hentry
      obtain ⟨move, m', hdoes, rfl⟩ := exists_does_of_yields rfl hentry hyields keepTrees
      exact ⟨moves ++ [move], m', hwalk.append (.single hdoes.step_eq), by simp, rfl⟩
  · rintro ⟨moves, m, hwalk, rfl, rfl⟩
    have hreaches := hwalk.reaches hids (n := 0) .first
    rwa [Nat.zero_add] at hreaches

end Machine

namespace Run

open Machine Snapshot

variable {t : Table} {a : Automaton} {settings : Settings} {keepTrees : Bool}
  {tokens : List Symbol} {limit number : ℕ} {m : Machine} {trace : List Step}
  {outcome : Option Outcome} {r : Run}

/-! ### How a run ends -/

/-- **A run accepts exactly if its last entry does.** -/
theorem accepted_iff_of_steps (h : steps t a keepTrees limit number m = .ok (trace, outcome)) :
    (∃ tree, outcome = some (.accepted tree)) ↔
      ∃ s ∈ trace.getLast?, s.move.action? = some .accept := by
  constructor
  · rintro ⟨tree, rfl⟩
    obtain ⟨s, hs, m, next, -, hstep, hends⟩ := exists_ends_of_steps h
    cases hends
    exact ⟨s, hs, (does_of_step hstep).action?_of_accept⟩
  · rintro ⟨s, hs, haction⟩
    obtain ⟨m, next, -, hstep, hend⟩ := eq_some_of_getLast? h hs
    have haccept : Does t a keepTrees m .accept .accept :=
      .accept ((does_of_step hstep).action?_eq.trans haction)
    obtain ⟨-, rfl⟩ := Prod.mk.inj (Except.ok.inj (hstep.symm.trans haccept.step_eq))
    exact ⟨_, hend _ .accept⟩

/-- **A run fails exactly if its last step shows why**, the limit apart. -/
theorem failed_iff_of_steps (hids : t.NumbersFromZero)
    (h : steps t a keepTrees limit number m = .ok (trace, outcome)) {f : Failure} :
    outcome = some (.failed f) ↔ ∃ s ∈ trace.getLast?, FailsWith t a s.snapshot f := by
  constructor
  · rintro rfl
    obtain ⟨s, hs, m, next, hshows, hstep, hends⟩ := exists_ends_of_steps h
    cases hends
    exact ⟨s, hs, snapshot_of_shows hshows ▸ (does_of_step hstep).failsWith hids⟩
  · rintro ⟨s, hs, hfails⟩
    obtain ⟨m, next, hshows, hstep, hend⟩ := eq_some_of_getLast? h hs
    obtain ⟨move, hdoes⟩ :=
      exists_does_of_failsWith (snapshot_of_shows hshows).symm hfails keepTrees
    obtain ⟨-, rfl⟩ := Prod.mk.inj (Except.ok.inj (hstep.symm.trans hdoes.step_eq))
    exact hend _ .fail

/-- **A run meets an unexpected token exactly if its last step has no entry.** -/
theorem rejected_iff_of_steps (h : steps t a keepTrees limit number m = .ok (trace, outcome)) :
    (∃ x q, outcome = some (.failed (.unexpectedToken x q))) ↔
      ∃ s ∈ trace.getLast?, s.move.action? = none := by
  constructor
  · rintro ⟨x, q, rfl⟩
    obtain ⟨s, hs, m, next, -, hstep, hends⟩ := exists_ends_of_steps h
    cases hends
    exact ⟨s, hs, (does_of_step hstep).action?_of_unexpectedToken⟩
  · rintro ⟨s, hs, haction⟩
    obtain ⟨m, next, -, hstep, hend⟩ := eq_some_of_getLast? h hs
    obtain ⟨x, rfl⟩ := (does_of_step hstep).exists_of_action?_eq_none haction
    exact ⟨x, _, hend _ .fail⟩

/-- **A run that returns is faithful to its table.** -/
theorem isFaithful_of_ofTokens (hlr0 : t.isLR0) (hids : t.NumbersFromZero)
    (h : ofTokens t a settings keepTrees tokens = .ok r) :
    r.IsFaithful t a settings.maxSteps tokens := by
  obtain ⟨trace, outcome, hsteps, rfl⟩ := exists_steps_of_ofTokens hlr0 h
  have hdoes : ∀ s ∈ trace, ∃ m next, s.snapshot = m.snapshot a ∧
      Does t a keepTrees m s.move next := fun s hs => by
    obtain ⟨moves, m, next, -, hshows, hstep⟩ := exists_walk_of_mem_trace h hs
    exact ⟨m, next, snapshot_of_shows hshows, does_of_step hstep⟩
  have haccepted := accepted_iff_of_steps hsteps
  have hfailed := fun f => failed_iff_of_steps hids hsteps (f := f)
  have hrejected := rejected_iff_of_steps hsteps
  refine ⟨map_number_of_steps hsteps, fun s hs => ?_, fun s hs => ?_, fun s hs number p hmove => ?_,
    ?_, ?_, ?_, fun f hf => ?_, fun haccept hfail => ?_⟩
  · rw [snapshot_of_shows (shows_head_of_steps hsteps s hs), snapshot_start]
  · obtain ⟨m, next, hsnapshot, hm⟩ := hdoes s hs
    rw [hsnapshot, action?_snapshot, hm.action?_eq]
  · obtain ⟨m, next, -, hm⟩ := hdoes s hs
    rw [hmove] at hm
    obtain ⟨hentry, hp⟩ := hm.production?_eq
    obtain ⟨k, rfl⟩ := exists_natCast hids hentry
    exact ⟨k, rfl, (Augmented.production?_natCast _ k).symm.trans hp⟩
  · refine (isChain_of_steps hsteps).imp fun s s' hnext => ?_
    obtain ⟨m, m', hm, hstep, hm'⟩ := hnext
    rw [snapshot_of_shows hm, snapshot_of_shows hm']
    exact (does_of_step hstep).yields hids
  · rw [← haccepted]
    cases outcome <;> simp
  · rw [← hrejected]
    cases outcome <;> simp
  · rw [← hfailed]
    cases outcome with
    | none => simpa using fun heq => hf _ heq.symm
    | some o => simp
  · cases outcome with
    | none =>
      refine ⟨rfl, ?_⟩
      rw [length_of_steps hsteps, Int.ofNat_toNat, max_comm]
    | some o =>
      obtain ⟨s, hs, m, next, -, -, hends⟩ := exists_ends_of_steps hsteps
      cases hends with
      | accept => exact absurd (haccepted.mp ⟨_, rfl⟩) haccept
      | @fail f =>
        obtain ⟨s, hs, hfails⟩ := (hfailed f).mp rfl
        exact absurd ⟨s, hs, f, hfails⟩ hfail

/-! ### Runs without an outcome -/

/-- **A run has no outcome exactly if the replay comes to a snapshot with such a fault** before the
limit. -/
theorem ofTokens_eq_error_iff (hlr0 : t.isLR0) (hids : t.NumbersFromZero) {fault : Fault}
    {P : Snapshot → Prop} (hP : ∀ m, Faults t a m fault ↔ P (m.snapshot a)) :
    ofTokens t a settings keepTrees tokens = .error fault ↔
      ∃ (n : ℕ) (s : Snapshot), n < settings.maxSteps ∧ Reaches t a tokens n s ∧ P s := by
  have hsteps : ofTokens t a settings keepTrees tokens = .error fault ↔
      steps t a keepTrees settings.maxSteps.toNat 1 (.start tokens) = .error fault := by
    rw [ofTokens, if_pos hlr0]
    cases steps t a keepTrees settings.maxSteps.toNat 1 (.start tokens) <;>
      simp [bind, Except.bind, pure, Except.pure]
  rw [hsteps, steps_eq_error_iff]
  constructor
  · rintro ⟨moves, m, hwalk, hlen, hfault⟩
    exact ⟨moves.length, m.snapshot a, Int.lt_toNat.mp hlen,
      (reaches_iff hids keepTrees).mpr ⟨moves, m, hwalk, rfl, rfl⟩,
      (hP m).mp (step_eq_error_iff.mp hfault)⟩
  · rintro ⟨n, s, hn, hreaches, hs⟩
    obtain ⟨moves, m, hwalk, rfl, rfl⟩ := (reaches_iff hids keepTrees).mp hreaches
    exact ⟨moves, m, hwalk, Int.lt_toNat.mpr hn, step_eq_error_iff.mpr ((hP m).mpr hs)⟩

/-- **With a smaller limit the trace is the same up to there.** -/
theorem ofTokens_take (hlr0 : t.isLR0) (h : ofTokens t a settings keepTrees tokens = .ok r) {n : ℤ}
    (hle : n ≤ settings.maxSteps) :
    ∃ r', ofTokens t a { settings with maxSteps := n } keepTrees tokens = .ok r' ∧
      r'.trace = r.trace.take n.toNat := by
  obtain ⟨trace, outcome, hsteps, rfl⟩ := exists_steps_of_ofTokens hlr0 h
  obtain ⟨outcome', hless⟩ := steps_take hsteps (Int.toNat_le_toNat hle)
  have hrun : ofTokens t a { settings with maxSteps := n } keepTrees tokens =
      .ok ⟨outcome'.getD (.failed (.stepLimit n)), trace.take n.toNat⟩ :=
    ofTokens_of_steps hlr0 hless
  exact ⟨_, hrun, rfl⟩

/-- **The trace of a run is a faithful log.** Let a table have no conflicts, and no negative number
of a production to undo. A run that returns records the replay of its table step by step, and its
last step decides how it ends; what it has recorded stays as it is in the steps to come. A run has
no outcome exactly if the replay comes to a snapshot without input or to a production that the
grammar does not have, at a point where the limit leaves room for a step. -/
theorem ofTokens_faithful (hlr0 : t.isLR0) (hids : t.NumbersFromZero) (a : Automaton)
    (settings : Settings) (keepTrees : Bool) (tokens : List Symbol) :
    (∀ r, ofTokens t a settings keepTrees tokens = .ok r →
      r.IsFaithful t a settings.maxSteps tokens ∧
      ∀ n ≤ settings.maxSteps, ∃ r',
        ofTokens t a { settings with maxSteps := n } keepTrees tokens = .ok r' ∧
          r'.trace = r.trace.take n.toNat) ∧
    (ofTokens t a settings keepTrees tokens = .error .inputExhausted ↔
      ∃ (n : ℕ) (s : Snapshot), n < settings.maxSteps ∧ Reaches t a tokens n s ∧
        s.input = []) ∧
    ∀ number, ofTokens t a settings keepTrees tokens = .error (.unknownProduction number) ↔
      ∃ (n : ℕ) (s : Snapshot), n < settings.maxSteps ∧ Reaches t a tokens n s ∧
        s.action? t = some (.reduce number) ∧ a.grammar.productions.size ≤ number := by
  refine ⟨fun r h => ⟨isFaithful_of_ofTokens hlr0 hids h, fun n => ofTokens_take hlr0 h⟩, ?_, ?_⟩
  · exact ofTokens_eq_error_iff hlr0 hids fun _ => faults_inputExhausted_iff
  · exact fun number => ofTokens_eq_error_iff hlr0 hids fun _ => faults_unknownProduction_iff hids

/-- An automaton written by hand that starts in a state of a negative number. -/
def strayAutomaton : Automaton :=
  ⟨.brackets, [], [], -3⟩

/-- A table written by hand that shifts the end marker, and undoes a production that the small
grammar does not have. -/
def strayTable : Table where
  action := (((({} : Cells Action).put ⟨-3, "c"⟩ (.shift 7)).put ⟨7, "$"⟩ (.reduce 2)).put
    ⟨5, "$"⟩ (.shift 9)).put ⟨-3, "$"⟩ (.reduce 4)
  goto := ({} : Cells ℤ).put ⟨-3, "S"⟩ 5

theorem ofTokens_faithful_stray :
    (∃ r, ofTokens strayTable strayAutomaton { maxSteps := 3 } true ["c"] = .ok r ∧
      r.trace.map (·.move.action?) = [some (.shift 7), some (.reduce 2), some (.shift 9)] ∧
      r.IsFaithful strayTable strayAutomaton 3 ["c"]) ∧
    ofTokens strayTable strayAutomaton { maxSteps := 4 } true ["c"] =
      .error .inputExhausted ∧
    ofTokens strayTable strayAutomaton { maxSteps := 4 } true [] =
      .error (.unknownProduction 4) := by
  have hlr0 : strayTable.isLR0 := by decide
  have hids : strayTable.NumbersFromZero := by
    intro c n
    simp only [strayTable, Cells.get?_put, Cells.get?_empty]
    split_ifs <;> simp <;> omega
  have hfaithful := fun settings tokens =>
    ofTokens_faithful hlr0 hids strayAutomaton settings true tokens
  refine ⟨?_, ?_, ?_⟩
  · have hrun : (ofTokens strayTable strayAutomaton { maxSteps := 3 } true ["c"]).toOption.map
        (fun r => r.trace.map (·.move.action?)) =
          some [some (.shift 7), some (.reduce 2), some (.shift 9)] := by decide +kernel
    cases hr : ofTokens strayTable strayAutomaton { maxSteps := 3 } true ["c"] with
    | error fault => rw [hr] at hrun; exact absurd hrun (by simp [Except.toOption])
    | ok r =>
      rw [hr] at hrun
      exact ⟨r, rfl, Option.some.inj hrun, ((hfaithful _ _).1 r hr).1⟩
  · -- the replay shifts `c`, undoes the production of `c`, and shifts the end marker
    have hrule : strayAutomaton.grammar.productions[2]? = some ⟨2, "S", ["c"], "S -> c"⟩ := rfl
    have hgoto : strayTable.goto.get? ⟨-3, "S"⟩ = some 5 := by decide +kernel
    have hreduce : Yields strayTable strayAutomaton ⟨[(-3, none)] ++ [(7, some "c")], ["$"]⟩
        (.reduce (2 : ℕ)) ⟨[(-3, none)] ++ [(5, some "S")], ["$"]⟩ :=
      .reduce hrule rfl rfl hgoto
    have hreaches : Reaches strayTable strayAutomaton ["c"] 3
        ⟨[(-3, none), (5, some "S"), (9, some "$")], []⟩ :=
      .next (.next (.next .first (by decide +kernel) .shift) (by decide +kernel) hreduce)
        (by decide +kernel) .shift
    exact (hfaithful _ _).2.1.mpr ⟨3, _, by decide, hreaches, rfl⟩
  · exact ((hfaithful _ _).2.2 4).mpr ⟨0, _, by decide, .first, by decide +kernel, by decide⟩

end Run

end ShiftReduce

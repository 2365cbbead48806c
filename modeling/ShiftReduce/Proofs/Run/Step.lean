import ShiftReduce.Proofs.Run.Track

/-!
# What a machine does on any table

Of a table that was written by hand nothing is known. A machine on such a table goes on by a shift
or a reduction, accepts, or fails in one of three ways: it has no entry for the next symbol, the
stack is too short for the production to undo, or there is no state to go to afterwards.
`ShiftReduce.Machine.Does` says of each of these when it happens and what it leads to, and these
are the steps that a machine takes (`ShiftReduce.Machine.step_eq_ok_iff`). A machine without a step
has used up its input or undoes a production that the grammar does not have
(`ShiftReduce.Machine.step_eq_error_iff`).
-/

namespace ShiftReduce

namespace Machine

variable {t : Table} {a : Automaton} {keepTrees : Bool} {m : Machine} {move : Move} {next : Next}

/-- The entry of a table for a machine: that for the state on top and the next symbol. -/
def action? (t : Table) (a : Automaton) (m : Machine) : Option Action :=
  match m.input with
  | [] => none
  | x :: rest => lookUp t (topState a m.frames) x rest

theorem action?_of_input {x : Symbol} {rest : List Symbol} (h : m.input = x :: rest) :
    m.action? t a = lookUp t (topState a m.frames) x rest := by
  rw [action?, h]

/-- An entry is found before an input only. -/
theorem exists_of_action? {action : Action} (h : m.action? t a = some action) :
    ∃ x rest, m.input = x :: rest ∧ lookUp t (topState a m.frames) x rest = some action := by
  cases hinput : m.input with
  | nil => simp [action?, hinput] at h
  | cons x rest => exact ⟨x, rest, rfl, (action?_of_input hinput).symm.trans h⟩

/-- **What a machine does.** -/
inductive Does (t : Table) (a : Automaton) (keepTrees : Bool) (m : Machine) : Move → Next → Prop
  /-- The entry moves the next symbol to the stack. -/
  | shift {x : Symbol} {rest : List Symbol} {target : ℤ} : m.input = x :: rest →
      m.action? t a = some (.shift target) →
      Does t a keepTrees m (.shift target) (.go (m.shift keepTrees x rest target))
  /-- The entry undoes a production, and there is a state to go to from below. -/
  | reduce {number : ℤ} {p : Production} {top below : List Frame} {target : ℤ} :
      m.action? t a = some (.reduce number) → a.grammar.production? number = some p →
      m.frames = top ++ below → top.length = p.rhs.length →
      t.goto.get? ⟨topState a below, p.lhs⟩ = some target →
      Does t a keepTrees m (.reduce number p) (.go (m.reduced keepTrees p target))
  /-- The entry undoes a production, but there is no state to go to from below. -/
  | miss {number : ℤ} {p : Production} {top below : List Frame} :
      m.action? t a = some (.reduce number) → a.grammar.production? number = some p →
      m.frames = top ++ below → top.length = p.rhs.length →
      t.goto.get? ⟨topState a below, p.lhs⟩ = none →
      Does t a keepTrees m (.reduce number p) (.fail (.gotoMissing p.lhs (topState a below)))
  /-- The entry undoes a production, but the stack is too short. -/
  | underflow {number : ℤ} {p : Production} :
      m.action? t a = some (.reduce number) → a.grammar.production? number = some p →
      m.frames.length < p.rhs.length →
      Does t a keepTrees m (.reduce number p) (.fail .stackUnderflow)
  /-- The entry accepts. -/
  | accept : m.action? t a = some .accept → Does t a keepTrees m .accept .accept
  /-- There is no entry for the next symbol. -/
  | reject {x : Symbol} {rest : List Symbol} : m.input = x :: rest → m.action? t a = none →
      Does t a keepTrees m (.reject x) (.fail (.unexpectedToken x (topState a m.frames)))

/-- **Why a machine has no step.** -/
inductive Faults (t : Table) (a : Automaton) (m : Machine) : Fault → Prop
  /-- There is no next symbol. -/
  | inputExhausted : m.input = [] → Faults t a m .inputExhausted
  /-- The entry undoes a production that the grammar does not have. -/
  | unknownProduction {number : ℤ} : m.action? t a = some (.reduce number) →
      a.grammar.production? number = none → Faults t a m (.unknownProduction number)

/-! ### Reductions -/

theorem reduce_eq_underflow {p : Production} (h : m.frames.length < p.rhs.length) :
    m.reduce t a keepTrees p = .fail .stackUnderflow :=
  if_pos h

theorem reduce_eq_missing {p : Production} {top below : List Frame}
    (hframes : m.frames = top ++ below) (hlen : top.length = p.rhs.length)
    (hgoto : t.goto.get? ⟨topState a below, p.lhs⟩ = none) :
    m.reduce t a keepTrees p = .fail (.gotoMissing p.lhs (topState a below)) := by
  rw [reduce_of_append hframes hlen, hgoto]

/-- A reduction is one of three. -/
theorem does_of_reduce {number : ℤ} {p : Production}
    (hentry : m.action? t a = some (.reduce number)) (hp : a.grammar.production? number = some p) :
    Does t a keepTrees m (.reduce number p) (m.reduce t a keepTrees p) := by
  by_cases hlt : m.frames.length < p.rhs.length
  · rw [reduce_eq_underflow hlt]
    exact .underflow hentry hp hlt
  have hframes : m.frames = m.frames.take p.rhs.length ++ m.frames.drop p.rhs.length :=
    (List.take_append_drop _ _).symm
  have hlen : (m.frames.take p.rhs.length).length = p.rhs.length := by
    rw [List.length_take]
    omega
  cases hgoto : t.goto.get? ⟨topState a (m.frames.drop p.rhs.length), p.lhs⟩ with
  | none =>
    rw [reduce_eq_missing hframes hlen hgoto]
    exact .miss hentry hp hframes hlen hgoto
  | some target =>
    rw [reduce_eq_go hframes hlen hgoto]
    exact .reduce hentry hp hframes hlen hgoto

/-! ### Steps -/

theorem does_of_step (h : m.step t a keepTrees = .ok (move, next)) :
    Does t a keepTrees m move next := by
  cases hinput : m.input with
  | nil => simp [step, hinput] at h
  | cons x rest =>
    have hentry := action?_of_input (t := t) (a := a) hinput
    simp only [step, hinput] at h
    rw [← hentry] at h
    cases haction : m.action? t a with
    | none =>
      rw [haction] at h
      obtain ⟨rfl, rfl⟩ := Prod.mk.inj (Except.ok.inj h)
      exact .reject hinput haction
    | some action =>
      rw [haction] at h
      cases action with
      | shift target =>
        obtain ⟨rfl, rfl⟩ := Prod.mk.inj (Except.ok.inj h)
        exact .shift hinput haction
      | reduce number =>
        cases hp : a.grammar.production? number with
        | none => simp [hp] at h
        | some p =>
          simp only [hp] at h
          obtain ⟨rfl, rfl⟩ := Prod.mk.inj (Except.ok.inj h)
          exact does_of_reduce haction hp
      | accept =>
        obtain ⟨rfl, rfl⟩ := Prod.mk.inj (Except.ok.inj h)
        exact .accept haction

/-- The step of a machine that undoes a production. -/
theorem step_of_reduce {number : ℤ} {p : Production}
    (hentry : m.action? t a = some (.reduce number)) (hp : a.grammar.production? number = some p) :
    m.step t a keepTrees = .ok (.reduce number p, m.reduce t a keepTrees p) := by
  obtain ⟨x, rest, hinput, hlook⟩ := exists_of_action? hentry
  simp only [step, hinput, hlook, hp]

theorem Does.step_eq (h : Does t a keepTrees m move next) :
    m.step t a keepTrees = .ok (move, next) := by
  cases h with
  | shift hinput hentry =>
    rw [action?_of_input hinput] at hentry
    simp only [step, hinput, hentry]
  | reduce hentry hp hframes hlen hgoto =>
    rw [step_of_reduce hentry hp, reduce_eq_go hframes hlen hgoto]
  | miss hentry hp hframes hlen hgoto =>
    rw [step_of_reduce hentry hp, reduce_eq_missing hframes hlen hgoto]
  | underflow hentry hp hlt => rw [step_of_reduce hentry hp, reduce_eq_underflow hlt]
  | accept hentry =>
    obtain ⟨x, rest, hinput, hlook⟩ := exists_of_action? hentry
    simp only [step, hinput, hlook]
  | reject hinput hentry =>
    rw [action?_of_input hinput] at hentry
    simp only [step, hinput, hentry]

/-- **The steps of a machine.** -/
theorem step_eq_ok_iff : m.step t a keepTrees = .ok (move, next) ↔ Does t a keepTrees m move next :=
  ⟨does_of_step, Does.step_eq⟩

/-- **Where a machine has no step.** -/
theorem step_eq_error_iff {fault : Fault} :
    m.step t a keepTrees = .error fault ↔ Faults t a m fault := by
  constructor
  · intro h
    cases hinput : m.input with
    | nil =>
      simp only [step, hinput] at h
      obtain rfl := Except.error.inj h
      exact .inputExhausted hinput
    | cons x rest =>
      have hentry := action?_of_input (t := t) (a := a) hinput
      simp only [step, hinput] at h
      rw [← hentry] at h
      split at h
      · exact absurd h (by simp)
      · exact absurd h (by simp)
      next number haction =>
        split at h
        next hp =>
          obtain rfl := Except.error.inj h
          exact .unknownProduction haction hp
        · exact absurd h (by simp)
      · exact absurd h (by simp)
  · rintro (hinput | ⟨hentry, hp⟩)
    · simp only [step, hinput]
    · obtain ⟨x, rest, hinput, hlook⟩ := exists_of_action? hentry
      simp only [step, hinput, hlook, hp]

/-- The entry that a step carries out is that of the table. -/
theorem Does.action?_eq (h : Does t a keepTrees m move next) : m.action? t a = move.action? := by
  cases h with
  | shift _ hentry => exact hentry
  | reduce hentry _ _ _ _ => exact hentry
  | miss hentry _ _ _ _ => exact hentry
  | underflow hentry _ _ => exact hentry
  | accept hentry => exact hentry
  | reject _ hentry => exact hentry

/-- Only the entry to accept accepts. -/
theorem Does.action?_of_accept (h : Does t a keepTrees m move .accept) :
    move.action? = some .accept := by
  cases h with
  | accept _ => rfl

/-- A token is unexpected only where there is no entry. -/
theorem Does.action?_of_unexpectedToken {x : Symbol} {q : ℤ}
    (h : Does t a keepTrees m move (.fail (.unexpectedToken x q))) : move.action? = none := by
  cases h with
  | reject _ _ => rfl

/-- Where there is no entry the next token is unexpected. -/
theorem Does.exists_of_action?_eq_none (h : Does t a keepTrees m move next)
    (hmove : move.action? = none) :
    ∃ x, next = .fail (.unexpectedToken x (topState a m.frames)) := by
  cases h with
  | @reject x _ _ _ => exact ⟨x, rfl⟩
  | _ => exact absurd hmove (by simp [Move.action?])

/-- The production that a step undoes is that of its entry. -/
theorem Does.production?_eq {number : ℤ} {p : Production}
    (h : Does t a keepTrees m (.reduce number p) next) :
    m.action? t a = some (.reduce number) ∧ a.grammar.production? number = some p := by
  cases h with
  | reduce hentry hp _ _ _ => exact ⟨hentry, hp⟩
  | miss hentry hp _ _ _ => exact ⟨hentry, hp⟩
  | underflow hentry hp _ => exact ⟨hentry, hp⟩

end Machine

end ShiftReduce

import ShiftReduce.Proofs.Service.Body
import ShiftReduce.Service.Response

/-!
# Replies

Whatever stage a session is asked for, there is a reply, and it is about the report of the session
(`ShiftReduce.Service.exists_answers`). Nothing can go wrong on the way, since a run on the table of
a grammar has an outcome. What is sent of a report leaves out the entries that a session works with
and nothing else (`ShiftReduce.Service.lookup_publicPayload`), and only values are left
(`ShiftReduce.Service.exists_publicPayload`), so that it can be written as JSON.
-/

namespace ShiftReduce.Service

open Json

/-! ### What is sent of a report -/

variable {report report' : Report} {name : String}

/-- **The entries that are sent** are those under any other names than the internal ones. -/
theorem lookup_publicPayload (report : Report) (name : String) :
    (publicPayload report).lookup name =
      if name ∈ internalKeys then none else report.lookup name := by
  rw [publicPayload]
  induction report with
  | nil => simp
  | cons e report ih =>
    obtain ⟨name', entry⟩ := e
    by_cases hname' : name' ∈ internalKeys
    · -- a dropped entry is not the one that is looked up
      rw [List.filter_cons_of_neg (by simpa using hname'), ih, List.lookup_cons]
      split
      · rfl
      · next hname =>
        have hne : name ≠ name' := fun h => hname (h ▸ hname')
        rw [beq_eq_false_iff_ne.mpr hne]
    · rw [List.filter_cons_of_pos (by simpa using hname'), List.lookup_cons, List.lookup_cons, ih]
      cases heq : name == name' with
      | true =>
        obtain rfl := eq_of_beq heq
        simp [hname']
      | false => rfl

/-- **A report has nothing but values to send**: every other entry has an internal name. -/
def IsTidy (report : Report) : Prop :=
  ∀ e ∈ report, e.1 ∉ internalKeys → ∃ v, e.2 = .value v

theorem isTidy_ofFields (fields : Fields) : IsTidy (.ofFields fields) := by
  intro e he _
  obtain ⟨f, -, rfl⟩ := List.mem_map.mp he
  exact ⟨f.2, rfl⟩

theorem IsTidy.append (h : IsTidy report) (h' : IsTidy report') : IsTidy (report ++ report') :=
  fun e he => (List.mem_append.mp he).elim (h e) (h' e)

theorem IsTidy.cons_value (h : IsTidy report) (name : String) (v : Value) :
    IsTidy ((name, .value v) :: report) := by
  intro e he hname
  rcases List.mem_cons.mp he with rfl | he
  · exact ⟨v, rfl⟩
  · exact h e he hname

theorem IsTidy.cons_internal (h : IsTidy report) {entry : Entry} (hname : name ∈ internalKeys) :
    IsTidy ((name, entry) :: report) := by
  intro e he hname'
  rcases List.mem_cons.mp he with rfl | he
  · exact absurd hname hname'
  · exact h e he hname'

/-- A list of values is the report of some fields. -/
theorem exists_ofFields (h : ∀ e ∈ report, ∃ v, e.2 = .value v) :
    ∃ fields, report = .ofFields fields := by
  induction report with
  | nil => exact ⟨[], rfl⟩
  | cons e report ih =>
    obtain ⟨fields, rfl⟩ := ih fun e he => h e (List.mem_cons_of_mem _ he)
    obtain ⟨name, entry⟩ := e
    obtain ⟨v, rfl⟩ := h (name, entry) List.mem_cons_self
    exact ⟨(name, v) :: fields, rfl⟩

/-- **Only values are sent** of a report that has nothing else to send. -/
theorem exists_publicPayload (h : IsTidy report) :
    ∃ fields, publicPayload report = .ofFields fields := by
  refine exists_ofFields fun e he => ?_
  obtain ⟨hmem, hname⟩ := List.mem_filter.mp he
  exact h e hmem (by simpa using hname)

/-! ### Presentable replies -/

/-- **A reply is presentable**: it can be written as JSON, says what went wrong unless all went
well, and shows nothing of what a session works with. -/
structure Reply.IsPresentable (reply : Reply) : Prop where
  /-- Its report has values only. -/
  exists_fields : ∃ fields, reply.payload = .ofFields fields
  /-- It says what went wrong. -/
  error : reply.status ≠ 200 →
    ∃ message, reply.payload.lookup "error" = some (.value (.str message))
  /-- It shows nothing of what a session works with. -/
  internal : ∀ name ∈ internalKeys, reply.payload.lookup name = none

/-- **A reply is about a report**: it sends what may be sent of it, with a status that goes with the
success that the report tells of. -/
structure Answers (reply : Reply) (report : Report) (success : Bool) : Prop where
  /-- It sends what may be sent of the report. -/
  payload : reply.payload = publicPayload report
  /-- The status goes with the success. -/
  status : reply.status = if success then 200 else 400
  /-- The report tells of the success. -/
  success_eq : report.value "success" = .bool success
  /-- The report says what went wrong. -/
  error : success = false → ∃ message, report.lookup "error" = some (.value (.str message))
  /-- The report has nothing but values to send. -/
  isTidy : IsTidy report

theorem Answers.isPresentable {reply : Reply} {success : Bool} (h : Answers reply report success) :
    reply.IsPresentable := by
  constructor
  · rw [h.payload]
    exact exists_publicPayload h.isTidy
  · intro hstatus
    rw [h.payload, lookup_publicPayload, if_neg (by simp [internalKeys])]
    refine h.error (Bool.eq_false_iff.mpr fun hsuccess => hstatus ?_)
    rw [h.status, if_pos hsuccess]
  · intro name hname
    rw [h.payload, lookup_publicPayload, if_pos hname]

theorem isPresentable_refuse (message : String) : (refuse message).IsPresentable := by
  refine ⟨⟨_, rfl⟩, fun _ => ⟨message, rfl⟩, ?_⟩
  simp [refuse, internalKeys, List.lookup_cons]

theorem isPresentable_unexpected (log : List String) (message : String) :
    (unexpected log message).IsPresentable := by
  refine ⟨⟨_, rfl⟩, fun _ => ⟨_, rfl⟩, ?_⟩
  simp [unexpected, internalKeys, List.lookup_cons]

theorem Reply.IsPresentable.withLog {reply : Reply} (h : reply.IsPresentable) (log : List String) :
    { reply with log }.IsPresentable :=
  ⟨h.exists_fields, h.error, h.internal⟩

/-! ### The replies of a session -/

theorem isTidy_automaton (a : Automaton) : IsTidy a.report :=
  ((isTidy_ofFields _).cons_internal (by simp [internalKeys])).cons_value _ _

theorem isTidy_table (b : BuiltTable) : IsTidy b.report :=
  (isTidy_automaton _).append ((isTidy_ofFields _).cons_internal (by simp [internalKeys]))

theorem answers_refused (stage : Stage) (r : Refusal) :
    Answers (refused stage r) r.report false :=
  ⟨rfl, rfl, by rw [Refusal.report, Report.value_ofFields]; rfl, fun _ => ⟨r.message, rfl⟩,
    isTidy_ofFields _⟩

theorem answers_succeeded (stage : Stage) (hsuccess : report.value "success" = .bool true)
    (h : IsTidy report) (log : List String) : Answers (succeeded stage report log) report true :=
  ⟨rfl, rfl, hsuccess, by simp, h⟩

theorem answers_ran (s : Simulation) : Answers (ran s) s.report s.run.outcome.success := by
  constructor
  · rw [ran, apply_ite Reply.payload, ite_self]
  · rw [ran, apply_ite Reply.status]
  · rfl
  · intro hfailed
    refine ⟨s.run.outcome.message, ?_⟩
    rw [Simulation.report, Report.lookup_ofFields, Simulation.fields, List.lookup_append]
    rcases houtcome : s.run.outcome with tree | f | n
    · simp [houtcome, Outcome.success] at hfailed
    · rfl
    · rfl
  · exact isTidy_ofFields _

theorem stageReport_of_error {session : Session} {r : Refusal} (h : session.grammar = .error r)
    (input : String) (stage : Stage) : session.stageReport input stage = .ok r.report := by
  obtain ⟨hgrammar, hautomaton, htable, hrun⟩ := Session.reports_of_error h input
  cases stage with
  | grammar => rw [Session.stageReport, hgrammar]
  | automaton => rw [Session.stageReport, hautomaton]
  | table => rw [Session.stageReport, htable]
  | simulation => rw [Session.stageReport, hrun]

theorem work_of_error {session : Session} {r : Refusal} (h : session.grammar = .error r)
    (input : String) (stage : Stage) : work stage session input = .ok (refused stage r) := by
  cases stage with
  | grammar => rw [work, h]
  | automaton => rw [work, Session.automaton_of_error h]
  | table => rw [work, Session.table_of_error h]
  | simulation => rw [work, Session.simulate_of_error h]

/-- **Every session that is asked for a stage answers**: it has a report, and there is a reply about
it. -/
theorem exists_answers (stage : Stage) (session : Session) (input : String) :
    ∃ reply report success, work stage session input = .ok reply ∧
      session.stageReport input stage = .ok report ∧ Answers reply report success := by
  cases hg : session.grammar with
  | error r =>
    exact ⟨_, _, _, work_of_error hg input stage, stageReport_of_error hg input stage,
      answers_refused stage r⟩
  | ok g =>
    obtain ⟨a, run, -, -, hautomaton, htable, hsimulate⟩ := Session.exists_stages hg input
    cases stage with
    | grammar =>
      refine ⟨_, g.report, _, by rw [work, hg], ?_, answers_succeeded _ rfl ?_ _⟩
      · rw [Session.stageReport, Session.grammarReport, hg, Session.reportOf]
      · exact ((isTidy_ofFields _).cons_internal (by simp [internalKeys])).cons_value _ _
    | automaton =>
      refine ⟨_, a.report, _, by rw [work, hautomaton], ?_,
        answers_succeeded _ rfl (isTidy_automaton a) _⟩
      rw [Session.stageReport, Session.automatonReport, hautomaton, Session.reportOf]
    | table =>
      refine ⟨_, BuiltTable.report ⟨a, .ofAutomaton a⟩, _, by rw [work, htable], ?_,
        answers_succeeded _ rfl (isTidy_table _) _⟩
      rw [Session.stageReport, Session.tableReport, htable, Session.reportOf]
    | simulation =>
      refine ⟨_, Simulation.report ⟨⟨a, .ofAutomaton a⟩, input, run⟩, _,
        by rw [work, hsimulate], ?_, answers_ran _⟩
      rw [Session.stageReport, Session.runReport, hsimulate]

end ShiftReduce.Service

import ShiftReduce.Service.Request
import ShiftReduce.Text.Entity

/-!
# Responses

The service answers what is posted for a stage with a status, a report and what it logs on the way.
A request without a usable object, without a grammar or without an input is refused before anything
is logged. A row whose alternatives are no list is an exception that the view of the stage lets
through. From then on every exception is caught and reported, such as a script that is no text.

A report is sent without what the session works with, which is for the session alone.
-/

namespace ShiftReduce.Service

open Json

/-! ### Replies -/

/-- What is sent in reply to a request. -/
structure Reply where
  /-- The status. -/
  status : Nat
  /-- The report. -/
  payload : Report
  /-- The lines logged. -/
  log : List String

/-- The names under which a report keeps what a session works with. -/
def internalKeys : List String :=
  ["grammar", "automaton", "table"]

/-- The entries of a report that may be sent. -/
def publicPayload (r : Report) : Report :=
  r.filter fun e => e.1 ∉ internalKeys

/-- What is wrong with a bad request. -/
def BadRequest.message : BadRequest → String
  | noObject => "Request body must be a JSON object"
  | noRows => "'rows' must be a list of objects"
  | noGrammar => "No grammar provided (send 'rows' or 'cfg')"
  | noInput => "No input string provided"
  | badRow e => e.message

/-- The reply that refuses a bad request. -/
def refuse (message : String) : Reply :=
  ⟨400, .ofFields [("error", .str message)], []⟩

/-- A line that marks a point on the way. -/
def banner (s : String) : String :=
  "--- " ++ s ++ " ---"

/-- What is logged when work on a stage begins. -/
def Stage.opening (stage : Stage) (input : String) : String :=
  match stage with
  | grammar => banner "Building Grammar"
  | automaton => banner "Building LR(0) Automaton"
  | table => banner "Building Parse Table"
  | simulation => banner s!"Parsing Input String: '{input}'"

/-- What the work on a stage is called in the log. -/
def Stage.title : Stage → String
  | grammar => "Grammar Building"
  | automaton => "Automaton Building"
  | table => "Parse Table Building"
  | simulation => "Grammar Processing"

/-- The reply when a session refuses. -/
def refused (stage : Stage) (r : Refusal) : Reply :=
  ⟨400, publicPayload r.report,
    [banner (stage.title ++ " FAILED"), "Error: " ++ r.message]
      ++ r.problems.map fun p => "  " ++ p.message⟩

/-- The reply when a session has got as far as it was asked. -/
def succeeded (stage : Stage) (report : Report) (log : List String) : Reply :=
  ⟨200, publicPayload report, banner (stage.title ++ " SUCCEEDED") :: log⟩

/-- The reply to an exception, after what was logged before. -/
def unexpected (log : List String) (message : String) : Reply :=
  ⟨500,
    .ofFields [("error", .str ("Unexpected server error: "
        ++ Text.Entity.substituteInTurn Text.Entity.errorApostrophe message)),
      ("error_type", .str "system_error")],
    log ++ [banner s!"UNEXPECTED Python Error: {message}"]⟩

/-- The message of a run without an outcome. -/
def faultMessage : Fault → String
  | .inputExhausted => "list index out of range"
  | .unknownProduction _ => "tuple index out of range"

/-- The reply to a run. -/
def ran (s : Simulation) : Reply :=
  if s.run.outcome.success then
    ⟨200, publicPayload s.report,
      [banner "Parsing SUCCEEDED", s!"Steps: {s.run.trace.length}"]⟩
  else
    ⟨400, publicPayload s.report,
      [banner s!"Parsing {s.run.outcome.status.toUpper}", "Error: " ++ s.run.outcome.message]⟩

/-- The reply of a session that is asked for a stage, or the message of an exception. -/
def work (stage : Stage) (session : Session) (input : String) : Except String Reply :=
  match stage with
  | .grammar =>
    match session.grammar with
    | .error r => .ok (refused stage r)
    | .ok g => .ok (succeeded stage g.report [s!"Found {g.productions.length} productions"])
  | .automaton =>
    match session.automaton with
    | .error r => .ok (refused stage r)
    | .ok m => .ok (succeeded stage m.report
        [s!"States created: {m.states.length}", s!"Transitions: {m.transitions.length}"])
  | .table =>
    match session.table with
    | .error r => .ok (refused stage r)
    | .ok b => .ok (succeeded stage b.report
        ([s!"States created: {b.automaton.states.length}",
            s!"Action entries: {b.table.action.size}", s!"Goto entries: {b.table.goto.size}"]
          ++ if b.table.isLR0 then []
            else [s!"Conflicts detected: {b.table.conflicts.size}"]))
  | .simulation =>
    match session.simulate input with
    | .error (.refused r) => .ok (refused stage r)
    | .error (.fault f) => .error (faultMessage f)
    | .ok s => .ok (ran s)

/-- The reply of the session that a source gives. -/
def Source.work (source : Source) (stage : Stage) (input : String) : Except String Reply :=
  match source with
  | .rows l => Service.work stage { rows := some l } input
  | .script text => Service.work stage { script := some text } input
  | .noScript kind => .error s!"expected string or bytes-like object, got '{kind}'"

/-! ### Views -/

namespace Framework

variable (F : Framework)

/-- A reply as a response, or the message of an exception. -/
def send (reply : Reply) : Except String Response := do
  return ⟨reply.status, some (← F.jsonify? reply.payload), reply.log⟩

/-- A reply as a response that has these lines logged before. An exception, on the way to the reply
or in sending it, is reported. -/
def guarded (opening : List String) (reply : Except String Reply) : Except String Response :=
  match reply with
  | .error message => F.send (unexpected opening message)
  | .ok reply =>
    let log := opening ++ reply.log
    match F.send { reply with log } with
    | .ok response => .ok response
    | .error message => F.send (unexpected log message)

/-- The view of a stage. -/
def view (stage : Stage) (r : F.Incoming) : Except String Response := do
  match readBody stage (← F.json? r) with
  | .error (.badRow e) => .error e.message
  | .error e => F.send (refuse e.message)
  | .ok (source, input) => F.guarded [stage.opening input] (source.work stage input)

/-- The routes of the service: one for each stage. -/
def routes : List (Route F.Incoming) :=
  stages.map fun stage => ⟨stage.path, ["POST"], F.view stage⟩

/-- The response of the service to a request. -/
def respond (r : F.Incoming) : Response :=
  F.serve F.routes r

end Framework

end ShiftReduce.Service

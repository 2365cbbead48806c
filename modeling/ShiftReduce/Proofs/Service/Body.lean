import ShiftReduce.Proofs.Session.Stages
import ShiftReduce.Service.Request

/-!
# What a body gives

The JSON value that is posted for a stage decides what the stage has to work on
(`ShiftReduce.Service.finds_readBody`): nothing, a session with an input as far as the stage needs
one, or something that breaks the stage (`ShiftReduce.Service.Breaks`). Only two things do: a row
whose alternatives are the value true or a number other than zero, and something that is no text
where a script should be.

The order of the checks matters only to what breaks: a row does so even if there is no input to run
on, a script does not.
-/

namespace ShiftReduce

open Json

/-! ### Rows without alternatives -/

namespace Row

/-- **A value cannot list alternatives**: it is the value true or a number other than zero. -/
inductive IsUnlistable : Value → Prop
  /-- The value true. -/
  | true : IsUnlistable (.bool true)
  /-- An integer other than zero. -/
  | int {n : ℤ} (h : n ≠ 0) : IsUnlistable (.int n)
  /-- A number with a point or an exponent that does not equal zero. -/
  | real {x : Float} (h : (x == 0.0) = false) : IsUnlistable (.real x)

theorem alternatives_eq_error_iff {v : Value} :
    (∃ e, alternatives v = .error e) ↔ IsUnlistable v := by
  constructor
  · rintro ⟨e, h⟩
    cases v with
    | null => simp [alternatives, Value.isGiven] at h
    | bool b =>
      cases b with
      | false => simp [alternatives, Value.isGiven] at h
      | true => exact .true
    | int n =>
      refine .int fun hzero => ?_
      simp [alternatives, Value.isGiven, hzero] at h
    | real x =>
      refine .real (Bool.eq_false_iff.mpr fun hzero => ?_)
      simp [alternatives, Value.isGiven, hzero] at h
    | str s => simp [alternatives] at h
    | arr items => simp [alternatives] at h
    | obj fields => simp [alternatives] at h
  · rintro (_ | h | h)
    · exact ⟨⟨"bool"⟩, rfl⟩
    · exact ⟨⟨"int"⟩, by simp [alternatives, Value.isGiven, Value.kindName, h]⟩
    · exact ⟨⟨"float"⟩, by simp [alternatives, Value.isGiven, Value.kindName, h]⟩

theorem ofFields_eq_error_iff {fields : Fields} {place : ℤ} :
    (∃ e, ofFields fields place = .error e) ↔ IsUnlistable (Value.field fields "right") := by
  rw [← alternatives_eq_error_iff, ofFields]
  cases alternatives (Value.field fields "right") <;>
    simp [bind, Except.bind, pure, Except.pure]

theorem mapM_eq_error_iff {α β ε : Type} {f : α → Except ε β} {l : List α} :
    (∃ e, l.mapM f = .error e) ↔ ∃ x ∈ l, ∃ e, f x = .error e := by
  induction l with
  | nil => simp [pure, Except.pure]
  | cons x l ih =>
    rw [List.exists_mem_cons_iff, ← ih, List.mapM_cons]
    cases f x with
    | error e => simp [bind, Except.bind]
    | ok y => cases l.mapM f <;> simp [bind, Except.bind, pure, Except.pure]

/-- **Objects are no rows exactly if one of them cannot list its alternatives.** -/
theorem ofList_eq_error_iff {objects : List Fields} :
    (∃ e, ofList objects = .error e) ↔
      ∃ fields ∈ objects, IsUnlistable (Value.field fields "right") := by
  calc (∃ e, ofList objects = .error e)
      ↔ ∃ p ∈ objects.zipIdx, IsUnlistable (Value.field p.1 "right") := by
        rw [ofList, mapM_eq_error_iff]
        simp only [ofFields_eq_error_iff]
    _ ↔ ∃ fields ∈ objects.zipIdx.map Prod.fst,
          IsUnlistable (Value.field fields "right") := by
        simp only [List.mem_map, exists_exists_and_eq_and]
    _ ↔ ∃ fields ∈ objects, IsUnlistable (Value.field fields "right") := by
        rw [List.zipIdx_map_fst]

end Row

/-! ### What a session is asked for -/

/-- What a session answers when it is asked for a stage. -/
def Session.stageReport (s : Session) (input : String) : Service.Stage → Except Fault Report
  | .grammar => .ok s.grammarReport
  | .automaton => .ok s.automatonReport
  | .table => .ok s.tableReport
  | .simulation => s.runReport input

namespace Service

/-! ### What a body gives -/

/-- **An object gives a session**: it has rows that can all be read or, with no rows, a script that
is not empty. -/
inductive Gives (fields : Fields) : Session → Prop
  /-- The rows of a list of objects. -/
  | rows {objects : List Fields} {rows : List Row}
    (hrows : Value.field fields "rows" = .arr (objects.map .obj))
    (h : Row.ofList objects = .ok rows) : Gives fields { rows := some rows }
  /-- A script in place of rows. -/
  | script {text : String} (hrows : Value.field fields "rows" = .null)
    (hscript : Value.field fields "cfg" = .str text) (h : text ≠ "") :
    Gives fields { script := some text }

/-- An object has an input, as far as the stage needs one. -/
def HasInput (stage : Stage) (fields : Fields) : Prop :=
  stage = .simulation → Value.field fields "input" ≠ .null

/-- **A body breaks a stage**: it has rows one of which cannot list its alternatives or, with no
rows, something other than a text where the script should be. The latter shows only if the body has
an input, as far as the stage needs one. -/
inductive Breaks (stage : Stage) : Value → Prop
  /-- A row cannot list its alternatives. -/
  | rows {fields : Fields} {objects : List Fields} {row : Fields}
    (hrows : Value.field fields "rows" = .arr (objects.map .obj)) (hrow : row ∈ objects)
    (h : Row.IsUnlistable (Value.field row "right")) : Breaks stage (.obj fields)
  /-- There is something other than a text where the script should be. -/
  | script {fields : Fields} (hrows : Value.field fields "rows" = .null)
    (hgiven : (Value.field fields "cfg").isGiven = true)
    (h : ∀ text, Value.field fields "cfg" ≠ .str text) (hinput : HasInput stage fields) :
    Breaks stage (.obj fields)

/-- **A body succeeds at a stage**: it gives a session whose report is one of success, with an
input if the stage needs one. -/
inductive Succeeds (stage : Stage) : Value → Prop
  /-- The session gets as far as it is asked. -/
  | intro {fields : Fields} {session : Session} {report : Report} (hgives : Gives fields session)
    (hinput : HasInput stage fields)
    (hreport : session.stageReport (Value.field fields "input").text stage = .ok report)
    (h : report.value "success" = .bool true) : Succeeds stage (.obj fields)

/-- The session of a source, if it is not something other than a text. -/
def Source.session? : Source → Option Session
  | .rows l => some { rows := some l }
  | .script text => some { script := some text }
  | .noScript _ => none

variable {fields : Fields} {stage : Stage} {v : Value} {session : Session} {source : Source}
  {e : BadRequest}

theorem objects?_eq_some_iff {items : List Value} {objects : List Fields} :
    objects? items = some objects ↔ items = objects.map .obj := by
  induction items generalizing objects with
  | nil => cases objects <;> simp [objects?]
  | cons v items ih =>
    cases v with
    | obj fields => cases objects <;> simp [objects?, ih, and_comm]
    | _ => cases objects <;> simp [objects?]

theorem ofFields_of_rows {objects : List Fields}
    (hrows : Value.field fields "rows" = .arr (objects.map .obj)) :
    Source.ofFields fields = ((Row.ofList objects).map .rows).mapError .badRow := by
  simp only [Source.ofFields, hrows, objects?_eq_some_iff.mpr rfl]

theorem ofFields_of_text {text : String} (hrows : Value.field fields "rows" = .null)
    (hscript : Value.field fields "cfg" = .str text) :
    Source.ofFields fields = if text = "" then .error .noGrammar else .ok (.script text) := by
  by_cases h : text = "" <;> simp [Source.ofFields, hrows, hscript, h]

theorem ofFields_of_noText (hrows : Value.field fields "rows" = .null)
    (h : ∀ text, Value.field fields "cfg" ≠ .str text) :
    Source.ofFields fields =
      if (Value.field fields "cfg").isGiven then
        .ok (.noScript (Value.field fields "cfg").kindName)
      else .error .noGrammar := by
  simp only [Source.ofFields, hrows]
  split <;> simp_all

theorem exists_source (hgives : Gives fields session) :
    ∃ source, Source.ofFields fields = .ok source ∧ source.session? = some session := by
  cases hgives with
  | @rows objects rows hrows h =>
    refine ⟨.rows rows, ?_, rfl⟩
    rw [ofFields_of_rows hrows, h]
    rfl
  | @script text hrows hscript h =>
    refine ⟨.script text, ?_, rfl⟩
    rw [ofFields_of_text hrows hscript, if_neg h]

theorem readBody_of_error (h : Source.ofFields fields = .error e) :
    readBody stage (.obj fields) = .error e := by
  rw [readBody, h]
  rfl

theorem readBody_of_ok (h : Source.ofFields fields = .ok source) (hinput : HasInput stage fields) :
    readBody stage (.obj fields) = .ok (source, (Value.field fields "input").text) := by
  rw [readBody, h]
  simp only [bind, Except.bind]
  split
  · next hnull => exact absurd hnull (hinput rfl)
  · rfl

theorem readBody_of_noInput (h : Source.ofFields fields = .ok source)
    (hinput : ¬HasInput stage fields) : readBody stage (.obj fields) = .error .noInput := by
  obtain ⟨rfl, hnull⟩ : stage = .simulation ∧ Value.field fields "input" = .null := by
    simpa [HasInput] using hinput
  rw [readBody, h]
  simp only [bind, Except.bind, hnull]

/-- **What can be found in a body**: nothing to work on, a row that cannot be read, something other
than a text in place of a script, or a session. -/
inductive Finds (stage : Stage) (v : Value) : Except BadRequest (Source × String) → Prop
  /-- There is nothing to work on. -/
  | nothing {e : BadRequest} (h : ∀ m, e ≠ .badRow m) : Finds stage v (.error e)
  /-- There is a row that cannot be read. -/
  | badRow {m : Row.Malformed} (h : Breaks stage v) : Finds stage v (.error (.badRow m))
  /-- There is something other than a text in place of a script. -/
  | noScript {kind input : String} (h : Breaks stage v) :
    Finds stage v (.ok (.noScript kind, input))
  /-- There is a session. -/
  | session {fields : Fields} {source : Source} {session : Session} (hv : v = .obj fields)
    (hgives : Gives fields session) (hinput : HasInput stage fields)
    (h : source.session? = some session) :
    Finds stage v (.ok (source, (Value.field fields "input").text))

theorem finds_of_error (h : Source.ofFields fields = .error e) (he : ∀ m, e ≠ .badRow m) :
    Finds stage (.obj fields) (readBody stage (.obj fields)) := by
  rw [readBody_of_error h]
  exact .nothing he

theorem finds_of_gives (hgives : Gives fields session) :
    Finds stage (.obj fields) (readBody stage (.obj fields)) := by
  obtain ⟨source, hsource, hsession⟩ := exists_source hgives
  by_cases hinput : HasInput stage fields
  · rw [readBody_of_ok hsource hinput]
    exact .session rfl hgives hinput hsession
  · rw [readBody_of_noInput hsource hinput]
    exact .nothing (by simp)

theorem finds_of_noText (hrows : Value.field fields "rows" = .null)
    (h : ∀ text, Value.field fields "cfg" ≠ .str text) :
    Finds stage (.obj fields) (readBody stage (.obj fields)) := by
  have hsource := ofFields_of_noText hrows h
  by_cases hgiven : (Value.field fields "cfg").isGiven = true
  · rw [if_pos hgiven] at hsource
    by_cases hinput : HasInput stage fields
    · rw [readBody_of_ok hsource hinput]
      exact .noScript (.script hrows hgiven h hinput)
    · rw [readBody_of_noInput hsource hinput]
      exact .nothing (by simp)
  · rw [if_neg hgiven] at hsource
    exact finds_of_error hsource (by simp)

theorem finds_of_rows {objects : List Fields}
    (hrows : Value.field fields "rows" = .arr (objects.map .obj)) :
    Finds stage (.obj fields) (readBody stage (.obj fields)) := by
  cases h : Row.ofList objects with
  | error m =>
    have hsource : Source.ofFields fields = .error (.badRow m) := by
      rw [ofFields_of_rows hrows, h]
      rfl
    rw [readBody_of_error hsource]
    obtain ⟨row, hrow, hright⟩ := Row.ofList_eq_error_iff.mp ⟨m, h⟩
    exact .badRow (.rows hrows hrow hright)
  | ok rows => exact finds_of_gives (.rows hrows h)

/-- **One of these is found in every body.** -/
theorem finds_readBody (stage : Stage) (v : Value) : Finds stage v (readBody stage v) := by
  cases v with
  | obj fields =>
    cases hrows : Value.field fields "rows" with
    | null =>
      by_cases htext : ∃ text, Value.field fields "cfg" = .str text
      · obtain ⟨text, hscript⟩ := htext
        by_cases h : text = ""
        · have hsource := ofFields_of_text hrows hscript
          rw [if_pos h] at hsource
          exact finds_of_error hsource (by simp)
        · exact finds_of_gives (.script hrows hscript h)
      · exact finds_of_noText hrows (not_exists.mp htext)
    | arr items =>
      cases hobjects : objects? items with
      | some objects =>
        rw [objects?_eq_some_iff.mp hobjects] at hrows
        exact finds_of_rows hrows
      | none =>
        have hsource : Source.ofFields fields = .error .noRows := by
          simp only [Source.ofFields, hrows, hobjects]
        exact finds_of_error hsource (by simp)
    | _ =>
      have hsource : Source.ofFields fields = .error .noRows := by
        simp only [Source.ofFields, hrows]
      exact finds_of_error hsource (by simp)
  | _ => exact .nothing (by simp)

end Service

end ShiftReduce

import ShiftReduce.Session.Report

/-!
# Reading reports back

What a report shows can be read off it again: an action (`ShiftReduce.Action.ofReport?_report`), a
conflict (`ShiftReduce.Conflict.ofReport?_report`), a step of a run
(`ShiftReduce.Record.ofReport?_fields`) and a tree (`ShiftReduce.Tree.ofReport?_report`). So no two
actions, conflicts or trees look alike in a report. Of the production of a step a report shows the
text alone.

The readers look fields up by their names, except for the one of trees: it takes the three fields of
a node as they come, so that its recursion follows the value.
-/

namespace ShiftReduce

open Json

/-! ### Values -/

namespace Json.Value

/-- The fields of an object; no other value has any. -/
def fields : Value → List (String × Value)
  | .obj fields => fields
  | _ => []

/-- The items of an array; no other value has any. -/
def items : Value → List Value
  | .arr items => items
  | _ => []

/-- The text that a value is. -/
def string? : Value → Option String
  | .str s => some s
  | _ => none

/-- The integer that a value is. -/
def int? : Value → Option Int
  | .int n => some n
  | _ => none

/-- The list that a value is, its items read one by one. -/
def list? {α : Type} (read : Value → Option α) : Value → Option (List α)
  | .arr items => items.mapM read
  | _ => none

/-- What a value is if it is not null. -/
def unlessNull? {α : Type} (read : Value → Option α) : Value → Option (Option α)
  | .null => some none
  | v => (read v).map some

variable {α : Type} {read : Value → Option α} {content : α → Value}

/-- What can be read off each item of a list can be read off the list. -/
theorem list?_map_of_eq {β : Type} {shown : β → α} {content : β → Value}
    (h : ∀ b, read (content b) = some (shown b)) (l : List β) :
    list? read (.arr (l.map content)) = some (l.map shown) := by
  rw [list?]
  induction l with
  | nil => rfl
  | cons b l ih => simp [List.mapM_cons, h, ih]

theorem list?_map (h : ∀ a, read (content a) = some a) (l : List α) :
    list? read (.arr (l.map content)) = some l := by
  have hid : ∀ a, read (content a) = some (id a) := h
  simpa using list?_map_of_eq hid l

theorem string?_str (s : String) : string? (str s) = some s := rfl

theorem list?_strings (l : List String) : list? string? (strings l) = some l :=
  list?_map string?_str l

end Json.Value

/-! ### Entries -/

namespace Report

variable {name : String} {r r' : Report} {fields : Fields}

@[simp]
theorem lookup_ofFields : (ofFields fields).lookup name = (fields.lookup name).map .value := by
  rw [ofFields]
  induction fields with
  | nil => rfl
  | cons f fields ih =>
    obtain ⟨name', v⟩ := f
    rw [List.map_cons, List.lookup_cons, List.lookup_cons, ih]
    cases name == name' <;> rfl

@[simp]
theorem value_ofFields : (ofFields fields).value name = Value.field fields name := by
  rw [value, lookup_ofFields, Value.field]
  cases fields.lookup name <;> rfl

end Report

/-! ### Parts of reports -/

namespace Action

/-- The action that a value reports. -/
def ofReport? (v : Value) : Option Action :=
  match Value.field v.fields "type" with
  | .str "shift" => (Value.field v.fields "to").int?.map .shift
  | .str "reduce" => (Value.field v.fields "prodId").int?.map .reduce
  | .str "accept" => some .accept
  | _ => none

/-- **An action can be read off its report.** -/
@[simp]
theorem ofReport?_report (a : Action) : ofReport? a.report = some a := by
  cases a <;> rfl

end Action

namespace ConflictKind

/-- The kind of conflict of a name. -/
def ofName? : String → Option ConflictKind
  | "shift/reduce" => some .shiftReduce
  | "reduce/reduce" => some .reduceReduce
  | _ => none

@[simp]
theorem ofName?_name (kind : ConflictKind) : ofName? kind.name = some kind := by
  cases kind <;> rfl

end ConflictKind

namespace Conflict

/-- The conflict that a value reports. -/
def ofReport? (v : Value) : Option Conflict := do
  let causes := (Value.field v.fields "causedBy").fields
  return {
    state := ← (Value.field v.fields "stateId").int?
    symbol := ← (Value.field v.fields "symbol").string?
    existing := ← Action.ofReport? (Value.field v.fields "existing")
    incoming := ← Action.ofReport? (Value.field v.fields "incoming")
    kind := ← (Value.field v.fields "kind").string?.bind ConflictKind.ofName?
    existingItems := ← (Value.field causes "existingItems").list? Value.string?
    incomingItems := ← (Value.field causes "incomingItems").list? Value.string? }

/-- **A conflict can be read off its report.** -/
theorem ofReport?_report (c : Conflict) : ofReport? c.report = some c := by
  simp [ofReport?, report, Value.fields, Value.field, List.lookup_cons, Value.int?, Value.string?,
    Value.list?_strings]

end Conflict

namespace Record

/-- What a report shows of a step: all of it, but the text of the production alone. -/
structure Shown where
  /-- The number of the step. -/
  number : Int
  /-- The states of the stack with their symbols, from the bottom. -/
  stack : List (Int × Option Symbol)
  /-- The input that is left. -/
  input : List Symbol
  /-- The action in words. -/
  action : String
  /-- The entry of the table. -/
  entry : Option Action
  /-- The text of the production. -/
  rule : Option String

/-- What a report shows of this step. -/
def shown (r : Record) : Shown :=
  ⟨r.number, r.stack, r.input, r.action, r.entry, r.production.map Production.text⟩

/-- The cell of a stack that a value reports. -/
def ofCell? (v : Value) : Option (Int × Option Symbol) := do
  return (← (Value.field v.fields "stateId").int?,
    ← (Value.field v.fields "symbol").unlessNull? Value.string?)

/-- What a value shows of a step. -/
def ofReport? (v : Value) : Option Shown := do
  return {
    number := ← (Value.field v.fields "step").int?
    stack := ← (Value.field v.fields "stack").list? ofCell?
    input := ← (Value.field v.fields "input").list? Value.string?
    action := ← (Value.field v.fields "action").string?
    entry := ← (Value.field v.fields "actionEntry").unlessNull? Action.ofReport?
    rule := ← (Value.field v.fields "rule").unlessNull? Value.string? }

end Record

namespace Tree

mutual

/-- The tree that a value reports. -/
def ofReport? : Value → Option Tree
  | .obj [("label", .str label), ("isTerminal", .bool isTerminal), ("children", .arr items)] =>
    (ofReports? items).map (.node label isTerminal)
  | _ => none

/-- The trees that several values report. -/
def ofReports? : List Value → Option (List Tree)
  | [] => some []
  | v :: rest => (ofReport? v).bind fun t => (ofReports? rest).map (t :: ·)

end

mutual

/-- **A tree can be read off its report.** -/
theorem ofReport?_report : ∀ t : Tree, ofReport? t.report = some t
  | .node label isTerminal children => by
    simp [report, ofReport?, ofReports?_reports children]

theorem ofReports?_reports : ∀ l : List Tree, ofReports? (reports l) = some l
  | [] => rfl
  | t :: rest => by simp [reports, ofReports?, ofReport?_report t, ofReports?_reports rest]

end

end Tree

end ShiftReduce

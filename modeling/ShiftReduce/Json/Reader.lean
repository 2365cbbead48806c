import ShiftReduce.Json.Token
import ShiftReduce.Order.Association

/-!
# Reading JSON

The reader goes over the tokens once. It holds the arrays and objects that are open, the
innermost first, and the place it is at in the innermost one. A text is read when all tokens
are used up and the place is behind one value with nothing open.

If an object names a field twice, the later value takes the earlier one's place. What is wrong
first decides: a text that opens too many arrays and objects inside each other is too deep
whatever follows.
-/

namespace ShiftReduce.Json

/-- An array or object that has been opened and not yet closed, with the part before the value
that is being read. -/
inductive Open where
  /-- An array, its finished items in reverse. -/
  | item (before : List Value)
  /-- An object, its finished fields, and the name of the field being read. -/
  | field (before : List (String × Value)) (name : String)

/-- What the reader expects next. -/
inductive Place where
  /-- A value. -/
  | value
  /-- The first item of an array, or its end. -/
  | firstItem
  /-- The first name of an object, or its end. -/
  | firstName
  /-- The next name of an object with these fields. -/
  | name (before : List (String × Value))
  /-- The colon after a name. -/
  | colon (before : List (String × Value)) (name : String)
  /-- A comma or a closing bracket, or the end of the text, after a value. -/
  | after (v : Value)

/-- Where a reader stands: its place, and what is open around it. -/
abbrev Position := Place × List Open

/-- Why a text is not read. -/
inductive Unreadable where
  /-- It is no JSON text. -/
  | malformed
  /-- It opens too many arrays and objects inside each other. -/
  | tooDeep
deriving DecidableEq

/-- Goes on to what stands in an array or object that is opened, unless it is too deep. -/
def openValue (maxDepth : Nat) (around : List Open) (place : Place) :
    Except Unreadable Position :=
  if around.length < maxDepth then .ok (place, around) else .error .tooDeep

/-- Begins a value with a token. -/
def beginValue (maxDepth : Nat) (around : List Open) : Token → Except Unreadable Position
  | .openArray => openValue maxDepth around .firstItem
  | .openObject => openValue maxDepth around .firstName
  | .str s => .ok (.after (.str s), around)
  | .atom v => .ok (.after v, around)
  | _ => .error .malformed

/-- Moves the reader over one token. -/
def Position.next (maxDepth : Nat) : Position → Token → Except Unreadable Position
  | (.value, around), token => beginValue maxDepth around token
  | (.firstItem, around), .closeArray => .ok (.after (.arr []), around)
  | (.firstItem, around), token => beginValue maxDepth (.item [] :: around) token
  | (.firstName, around), .closeObject => .ok (.after (.obj []), around)
  | (.firstName, around), .str s => .ok (.colon [] s, around)
  | (.name before, around), .str s => .ok (.colon before s, around)
  | (.colon before s, around), .colon => .ok (.value, .field before s :: around)
  | (.after v, .item before :: around), .comma => .ok (.value, .item (v :: before) :: around)
  | (.after v, .item before :: around), .closeArray =>
    .ok (.after (.arr (v :: before).reverse), around)
  | (.after v, .field before s :: around), .comma =>
    .ok (.name (Association.put before s v), around)
  | (.after v, .field before s :: around), .closeObject =>
    .ok (.after (.obj (Association.put before s v)), around)
  | _, _ => .error .malformed

/-- Moves the reader over what may be a token. -/
def Position.next? (maxDepth : Nat) (p : Position) : Option Token → Except Unreadable Position
  | some token => p.next maxDepth token
  | none => .error .malformed

/-- The value that a JSON text denotes, if at most `maxDepth` arrays and objects are open at any
place of it. -/
def read (maxDepth : Nat) (s : String) : Except Unreadable Value := do
  match ← (Token.readAll s.toList).foldlM (Position.next? maxDepth) (.value, []) with
  | (.after v, []) => .ok v
  | _ => .error .malformed

end ShiftReduce.Json

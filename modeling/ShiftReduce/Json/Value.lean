import ShiftReduce.Decimal.Layout
import ShiftReduce.Text.Quoted

/-!
# JSON values

A grammar may be authored as JSON by hand or by another program, so a field can hold any value
where a text or a list is meant. Here are the values, with two questions about them: whether a
field that holds one counts as *given*, and what text a value has where a text is asked for.

Objects keep their fields in the order in which the names first occurred.
-/

namespace ShiftReduce.Json

/-- A JSON value. Numbers with a point or an exponent are kept apart from integers. -/
inductive Value where
  /-- The null value, which also stands for an absent field. -/
  | null
  /-- A truth value. -/
  | bool (b : Bool)
  /-- An integer of any size. -/
  | int (n : Int)
  /-- A number with a point or an exponent. -/
  | real (x : Float)
  /-- A string. -/
  | str (s : String)
  /-- An array. -/
  | arr (items : List Value)
  /-- An object, its fields in order of first occurrence. -/
  | obj (fields : List (String × Value))

namespace Value

/-- The value of a field, null if there is none of that name. -/
def field (fields : List (String × Value)) (name : String) : Value :=
  (fields.lookup name).getD .null

/-- A natural number as a value. -/
def nat (n : Nat) : Value := .int n

/-- An array of strings. -/
def strings (l : List String) : Value := .arr (l.map .str)

/-- A string or, if there is none, null. -/
def optional (s : Option String) : Value := (s.map .str).getD .null

/-- Whether a value counts as given: null, false, zero and whatever is empty do not. -/
def isGiven : Value → Bool
  | null => false
  | bool b => b
  | int n => n != 0
  | real x => !(x == 0.0)
  | str s => !s.isEmpty
  | arr items => !items.isEmpty
  | obj fields => !fields.isEmpty

/-- The name of the kind of a value, as error messages give it. -/
def kindName : Value → String
  | null => "NoneType"
  | bool _ => "bool"
  | int _ => "int"
  | real _ => "float"
  | str _ => "str"
  | arr _ => "list"
  | obj _ => "dict"

mutual

/-- The text of a value inside a list or an object, where strings are quoted. -/
def inner : Value → String
  | null => "None"
  | bool true => "True"
  | bool false => "False"
  | int n => toString n
  | real x => Decimal.floatText x
  | str s => Text.quoted s
  | arr items => "[" ++ ", ".intercalate (innerItems items) ++ "]"
  | obj fields => "\x7b" ++ ", ".intercalate (innerFields fields) ++ "\x7d"

/-- The texts of the items of an array. -/
def innerItems : List Value → List String
  | [] => []
  | v :: rest => inner v :: innerItems rest

/-- The texts of the fields of an object, each with its name. -/
def innerFields : List (String × Value) → List String
  | [] => []
  | (name, v) :: rest => (Text.quoted name ++ ": " ++ inner v) :: innerFields rest

end

/-- The text of a value where a text is asked for: a string is its own. -/
def text : Value → String
  | str s => s
  | v => inner v

end Value

end ShiftReduce.Json

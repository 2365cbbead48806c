import ShiftReduce.Json.Value

/-!
# Writing JSON

Values are written without white space. In a string the quotation mark, the backslash and the
control characters are escaped and everything else stands for itself.
-/

namespace ShiftReduce.Json.Value

/-- One character of a string. -/
def writeChar (c : Char) : List Char :=
  if c = '"' ∨ c = '\\' then ['\\', c]
  else if c.toNat < 0x20 then '\\' :: 'u' :: Text.hexDigits 4 c.toNat
  else [c]

/-- A string between quotation marks. -/
def writeString (s : String) : String :=
  String.ofList ('"' :: s.toList.flatMap writeChar ++ ['"'])

mutual

/-- The JSON text of a value. -/
def write : Value → String
  | null => "null"
  | bool true => "true"
  | bool false => "false"
  | int n => toString n
  | real x => if x.isNaN then "NaN" else if x.isInf then
      (if x < 0.0 then "-Infinity" else "Infinity") else Decimal.floatText x
  | str s => writeString s
  | arr items => "[" ++ ",".intercalate (writeItems items) ++ "]"
  | obj fields => "\x7b" ++ ",".intercalate (writeFields fields) ++ "\x7d"

/-- The JSON texts of the items of an array. -/
def writeItems : List Value → List String
  | [] => []
  | v :: rest => write v :: writeItems rest

/-- The JSON texts of the fields of an object. -/
def writeFields : List (String × Value) → List String
  | [] => []
  | (name, v) :: rest => (writeString name ++ ":" ++ write v) :: writeFields rest

end

end ShiftReduce.Json.Value

import ShiftReduce.Json.Value
import ShiftReduce.Text.Encoding

/-!
# Tokens of a JSON text

A JSON text is a sequence of tokens between white space: brackets, commas, colons, strings, and
values without parts. Beside the numbers of the standard the words `NaN`, `Infinity` and
`-Infinity` are accepted. A string may not hold a control character; a `\u` escape that is half
of a pair whose other half is missing is kept as a private character of its own.

Each reader of a token gets the text after the token's first character and says how many more
characters the token takes, so the rest of the text always gets shorter.
-/

namespace ShiftReduce.Json

/-- A token of a JSON text. -/
inductive Token where
  /-- The bracket `[`. -/
  | openArray
  /-- The bracket `]`. -/
  | closeArray
  /-- The opening brace. -/
  | openObject
  /-- The closing brace. -/
  | closeObject
  /-- The comma. -/
  | comma
  /-- The colon. -/
  | colon
  /-- A string, as a value or as the name of a field. -/
  | str (s : String)
  /-- A value without parts that is no string. -/
  | atom (v : Value)

namespace Token

/-- The white space allowed between tokens. -/
def isSpace (c : Char) : Bool :=
  [' ', '\t', '\n', '\r'].contains c

/-! ### Strings -/

/-- The 16-bit unit that four hexadecimal digits give. -/
def unit? (a b c d : Char) : Option Nat := do
  return (((← Text.hexDigit? a) * 16 + (← Text.hexDigit? b)) * 16 + (← Text.hexDigit? c)) * 16
    + (← Text.hexDigit? d)

/-- The character that a backslash and this letter stand for. -/
def unletter? : Char → Option Char
  | '"' => some '"'
  | '\\' => some '\\'
  | '/' => some '/'
  | 'b' => some '\x08'
  | 'f' => some '\x0c'
  | 'n' => some '\n'
  | 'r' => some '\r'
  | 't' => some '\t'
  | _ => none

/-- What a high unit becomes when no low one follows. -/
def flush : Option Nat → List Char
  | none => []
  | some h => [Text.Encoding.halfChar h]

/-- The characters of a string after its opening mark, and how many characters of the text they
take together with the closing mark. `high` is a high unit that waits for its low one. -/
def stringBody (high : Option Nat) : List Char → Option (List Char × Nat)
  | [] => none
  | '"' :: _ => some (flush high, 1)
  | '\\' :: 'u' :: a :: b :: c :: d :: rest => do
    let unit ← unit? a b c d
    if Text.Encoding.isHigh unit then
      let (s, n) ← stringBody (some unit) rest
      return (flush high ++ s, n + 6)
    else if Text.Encoding.isLow unit then
      let (s, n) ← stringBody none rest
      match high with
      | some h => return (Text.Encoding.pairChar h unit :: s, n + 6)
      | none => return (Text.Encoding.halfChar unit :: s, n + 6)
    else
      let (s, n) ← stringBody none rest
      return (flush high ++ Char.ofNat unit :: s, n + 6)
  | '\\' :: l :: rest => do
    let c ← unletter? l
    let (s, n) ← stringBody none rest
    return (flush high ++ c :: s, n + 2)
  | c :: rest =>
    if c.toNat < 0x20 then none
    else do
      let (s, n) ← stringBody none rest
      return (flush high ++ c :: s, n + 1)

/-! ### Numbers -/

/-- The number that a run of decimal digits denotes. -/
def natOf (digits : List Char) : Nat :=
  digits.foldl (fun n c => 10 * n + (c.toNat - '0'.toNat)) 0

/-- The digits of a whole part: a zero alone, or digits that begin with another one. -/
def wholePart : List Char → List Char
  | '0' :: _ => ['0']
  | s => s.takeWhile Char.isDigit

/-- The digits after a point, none if no digit follows it. -/
def fraction : List Char → List Char
  | '.' :: s => s.takeWhile Char.isDigit
  | _ => []

/-- An exponent, as its sign, its digits and the number of characters it takes; none if no digit
follows the mark. -/
def exponent? : List Char → Option (Bool × List Char × Nat)
  | e :: s =>
    if e = 'e' ∨ e = 'E' then
      let (negative, mark, s) := match s with
        | '-' :: s => (true, 1, s)
        | '+' :: s => (false, 1, s)
        | s => (false, 0, s)
      let digits := s.takeWhile Char.isDigit
      if digits.isEmpty then none else some (negative, digits, 1 + mark + digits.length)
    else none
  | [] => none

/-- The greatest number of digits an integer may have. -/
def maxDigits : Nat := 4300

/-- An unsigned number that begins the text, and how many characters it takes. -/
def number? (negative : Bool) (s : List Char) : Option (Value × Nat) :=
  let whole := wholePart s
  if whole.isEmpty then none
  else
    let rest := s.drop whole.length
    let places := fraction rest
    let pointed := if places.isEmpty then 0 else places.length + 1
    let size := whole.length + pointed
    match places, exponent? (rest.drop pointed) with
    | [], none =>
      if whole.length ≤ maxDigits then
        some (.int (if negative then -(natOf whole : Int) else natOf whole), size)
      else none
    | _, exponent =>
      let power : Int := match exponent with
        | some (true, digits, _) => -(natOf digits : Int)
        | some (false, digits, _) => natOf digits
        | none => 0
      let x := Decimal.nearestFloat (natOf (whole ++ places)) (power - (places.length : Int))
      some (.real (if negative then -x else x), size + ((exponent.map (·.2.2)).getD 0))

/-- The word, if the text begins with it, as a value. -/
def word? (word : String) (v : Value) (s : List Char) : Option (Token × Nat) :=
  if word.toList.isPrefixOf s then some (atom v, word.length) else none

/-- The token that begins with the character `c` before the text `s`, and how many characters of
`s` it takes. -/
def read? (c : Char) (s : List Char) : Option (Token × Nat) :=
  match c with
  | '[' => some (openArray, 0)
  | ']' => some (closeArray, 0)
  | '\x7b' => some (openObject, 0)
  | '\x7d' => some (closeObject, 0)
  | ',' => some (comma, 0)
  | ':' => some (colon, 0)
  | '"' => (stringBody none s).map fun (cs, n) => (str (String.ofList cs), n)
  | 'n' => word? "ull" .null s
  | 't' => word? "rue" (.bool true) s
  | 'f' => word? "alse" (.bool false) s
  | 'N' => word? "aN" (.real (0.0 / 0.0)) s
  | 'I' => word? "nfinity" (.real (1.0 / 0.0)) s
  | '-' =>
    match number? true s with
    | some (v, n) => some (atom v, n)
    | none => word? "Infinity" (.real (-1.0 / 0.0)) s
  | c => (number? false (c :: s)).map fun (v, n) => (atom v, n - 1)

/-- The tokens of a text. A place where no token begins is none; it ends the list. -/
def readAll : List Char → List (Option Token)
  | [] => []
  | c :: s =>
    if isSpace c then readAll s
    else
      match read? c s with
      | some (token, extra) => some token :: readAll (s.drop extra)
      | none => [none]
termination_by s => s.length
decreasing_by
  all_goals simp only [List.length_cons, List.length_drop]; omega

end Token

end ShiftReduce.Json

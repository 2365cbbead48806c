/-!
# Encodings of a text

A text may arrive in five encodings: UTF-8, or UTF-16 or UTF-32 with either end first. A byte order
mark in front says which and does not count. Without one every text that matters begins with an
ASCII character, so the zeros among the first four bytes tell.

Half of a surrogate pair whose other half is missing is no character, but it may occur. It is kept
as one of the last private characters, a different one for each half, so that texts that differ in
such halves stay different.
-/

namespace ShiftReduce.Text

/-- How a text is laid out in bytes. -/
inductive Encoding where
  /-- One to four bytes a character. -/
  | utf8
  /-- One or two units of two bytes a character, the high byte first or last. -/
  | utf16 (highFirst : Bool)
  /-- Four bytes a character, the high byte first or last. -/
  | utf32 (highFirst : Bool)
deriving DecidableEq

namespace Encoding

/-- The encoding of a text that begins with two ASCII characters, or is one. -/
def guess : List UInt8 → Encoding
  | a :: b :: c :: d :: _ =>
    if a = 0 then (if b = 0 then .utf32 true else .utf16 true)
    else if b = 0 then (if c = 0 ∧ d = 0 then .utf32 false else .utf16 false)
    else .utf8
  | [a, b] => if a = 0 then .utf16 true else if b = 0 then .utf16 false else .utf8
  | _ => .utf8

/-- The number that some bytes are the digits of, the high one first or last. -/
def number (highFirst : Bool) (bytes : List UInt8) : Nat :=
  (if highFirst then bytes else bytes.reverse).foldl (fun n b => n * 0x100 + b.toNat) 0

/-- The bytes in groups of two, if they can be grouped so. -/
def twos : List UInt8 → Option (List (List UInt8))
  | [] => some []
  | a :: b :: rest => (twos rest).map ([a, b] :: ·)
  | [_] => none

/-- The bytes in groups of four, if they can be grouped so. -/
def fours : List UInt8 → Option (List (List UInt8))
  | [] => some []
  | a :: b :: c :: d :: rest => (fours rest).map ([a, b, c, d] :: ·)
  | _ => none

/-- Whether a code unit is the first half of a surrogate pair. -/
def isHigh (unit : Nat) : Bool :=
  decide (0xD800 ≤ unit) && decide (unit < 0xDC00)

/-- Whether a code unit is the second half of a surrogate pair. -/
def isLow (unit : Nat) : Bool :=
  decide (0xDC00 ≤ unit) && decide (unit < 0xE000)

/-- The character of a surrogate pair. -/
def pairChar (high low : Nat) : Char :=
  Char.ofNat (0x10000 + (high - 0xD800) * 0x400 + (low - 0xDC00))

/-- The private character that half of a pair is kept as. -/
def halfChar (unit : Nat) : Char :=
  Char.ofNat (0x10F800 + (unit - 0xD800))

/-- The character of a code point, also if that is half of a pair. -/
def pointChar (point : Nat) : Char :=
  if isHigh point || isLow point then halfChar point else Char.ofNat point

/-- The bytes of a text in UTF-8 with the private characters in place of halves of pairs. -/
def replaceHalves : List UInt8 → List UInt8
  | 0xED :: b :: c :: rest =>
    if 0xA0 ≤ b ∧ b < 0xC0 ∧ 0x80 ≤ c ∧ c < 0xC0 then
      (halfChar (0xD000 + (b.toNat - 0x80) * 0x40 + (c.toNat - 0x80))).toString.toUTF8.toList
        ++ replaceHalves rest
    else 0xED :: replaceHalves (b :: c :: rest)
  | b :: rest => b :: replaceHalves rest
  | [] => []

/-- The characters of units of 16 bits. -/
def ofUnits : List Nat → List Char
  | [] => []
  | [unit] => [pointChar unit]
  | high :: low :: rest =>
    if isHigh high && isLow low then pairChar high low :: ofUnits rest
    else pointChar high :: ofUnits (low :: rest)

/-- The characters of code points, if all of them are below the bound of Unicode. -/
def ofPoints (points : List Nat) : Option (List Char) :=
  if points.all (· < 0x110000) then some (points.map pointChar) else none

/-- The text that some bytes are in an encoding. -/
def decode? : Encoding → List UInt8 → Option String
  | utf8, bytes => String.fromUTF8? ⟨(replaceHalves bytes).toArray⟩
  | utf16 highFirst, bytes =>
    (twos bytes).map fun units => String.ofList (ofUnits (units.map (number highFirst)))
  | utf32 highFirst, bytes =>
    (fours bytes).bind fun points => (ofPoints (points.map (number highFirst))).map String.ofList

/-- The encoding that some bytes show, and the bytes behind the byte order mark, if there is
one. -/
def detect : List UInt8 → Encoding × List UInt8
  | 0 :: 0 :: 0xFE :: 0xFF :: bytes => (utf32 true, bytes)
  | 0xFF :: 0xFE :: 0 :: 0 :: bytes => (utf32 false, bytes)
  | 0xFE :: 0xFF :: bytes => (utf16 true, bytes)
  | 0xFF :: 0xFE :: bytes => (utf16 false, bytes)
  | 0xEF :: 0xBB :: 0xBF :: bytes => (utf8, bytes)
  | bytes => (guess bytes, bytes)

end Encoding

/-- The text that some bytes are in the encoding that they show. -/
def decode? (bytes : List UInt8) : Option String :=
  let (encoding, text) := Encoding.detect bytes
  encoding.decode? text

example : decode? [0x61, 0, 0x3D, 0xD8, 0, 0xDE] = some "a😀" := by decide +kernel

example : decode? [0xFF, 0xFE, 0x61, 0] = some "a" := by decide +kernel

end ShiftReduce.Text

/-!
# The shortest decimal that reads back

A binary floating-point value of 64 bits stands for an interval of reals: those that round to it.
Its text is the decimal of fewest digits in that interval, and of two such decimals the nearer.

Everything is exact arithmetic on naturals. A value `m * 2 ^ q` is a decimal itself, since
`2 ^ (-1) = 5 * 10 ^ (-1)`; so are the two ends of its interval. A decimal of `p` digits near the
value is the exact decimal cut after its leading `p` digits, or the next one above.
-/

namespace ShiftReduce

/-- The decimal `digits * 10 ^ exponent`. -/
structure Decimal where
  /-- The digits, as one natural number. -/
  digits : Nat
  /-- The power of ten that the last digit counts. -/
  exponent : Int
deriving DecidableEq

namespace Decimal

/-- The exact value of `m * 2 ^ q`. -/
def ofBinary (m : Nat) (q : Int) : Decimal :=
  if 0 ≤ q then ⟨m * Nat.pow 2 q.toNat, 0⟩ else ⟨m * Nat.pow 5 (-q).toNat, q⟩

/-- The number of digits. -/
def length (d : Decimal) : Nat :=
  (Nat.toDigits 10 d.digits).length

/-- Compares two decimals by value. -/
def compareValue (a b : Decimal) : Ordering :=
  let low := min a.exponent b.exponent
  let scaled (d : Decimal) : Nat := d.digits * Nat.pow 10 (d.exponent - low).toNat
  compare (scaled a) (scaled b)

/-- The decimal cut down to its leading `p` digits. -/
def cut (d : Decimal) (p : Nat) : Decimal :=
  ⟨d.digits / Nat.pow 10 (d.length - p), d.exponent + ((d.length - p : Nat) : Int)⟩

/-- The next decimal with the same last place. -/
def next (d : Decimal) : Decimal :=
  ⟨d.digits + 1, d.exponent⟩

end Decimal

/-- A positive finite value of 64 bits, `m * 2 ^ q`. -/
structure Binary where
  /-- The significand. -/
  m : Nat
  /-- The power of two. -/
  q : Int
  /-- Whether the gap to the value below is half the gap to the value above. -/
  narrowBelow : Bool

namespace Binary

/-- The finite value with these bits, the sign apart. -/
def ofBits (bits : UInt64) : Binary :=
  let e := ((bits >>> 52) &&& 0x7FF).toNat
  let f := (bits &&& 0xFFFFFFFFFFFFF).toNat
  if e = 0 then ⟨f, -1074, false⟩
  else ⟨0x10000000000000 + f, (e : Int) - 1075, f == 0 && decide (1 < e)⟩

/-- The least real that rounds to the value or lies on the border of those that do. -/
def lower (x : Binary) : Decimal :=
  Decimal.ofBinary (if x.narrowBelow then 4 * x.m - 1 else 4 * x.m - 2) (x.q - 2)

/-- The greatest real that rounds to the value or lies on the border of those that do. -/
def upper (x : Binary) : Decimal :=
  Decimal.ofBinary (4 * x.m + 2) (x.q - 2)

/-- Whether the decimal rounds to the value; a border belongs to the even significand. -/
def readsBack (x : Binary) (d : Decimal) : Bool :=
  let below := x.lower.compareValue d
  let above := d.compareValue x.upper
  let even := x.m % 2 == 0
  (below == .lt || (even && below == .eq)) && (above == .lt || (even && above == .eq))

/-- The decimal of `p` digits that reads back to the value and lies nearest to it, if there is
one; halfway between two the even one is taken. -/
def nearest? (x : Binary) (p : Nat) : Option Decimal :=
  let exact := Decimal.ofBinary x.m x.q
  let below := exact.cut p
  let above := below.next
  match x.readsBack below, x.readsBack above with
  | false, false => none
  | true, false => some below
  | false, true => some above
  | true, true =>
    let middle : Decimal := ⟨below.digits + above.digits, below.exponent⟩
    match (Decimal.mk (2 * exact.digits) exact.exponent).compareValue middle with
    | .lt => some below
    | .gt => some above
    | .eq => some (if below.digits % 2 = 0 then below else above)

/-- The shortest decimal that reads back to the value, and its exact decimal should no shorter
one do. -/
def shortest (x : Binary) : Decimal :=
  ((List.range' 1 17).findSome? x.nearest?).getD (Decimal.ofBinary x.m x.q)

end Binary

end ShiftReduce

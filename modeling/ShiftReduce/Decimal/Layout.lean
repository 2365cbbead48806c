import ShiftReduce.Decimal.Shortest

/-!
# The text of a floating-point number

Numbers are written with the fewest digits that identify them: positionally while the leading
digit counts at least `10 ^ (-4)` and less than `10 ^ 16`, with at least one place after the
point, and otherwise with a signed exponent of at least two digits.
-/

namespace ShiftReduce.Decimal

/-- The digits of a positive decimal without the zeros at its end. -/
def significant (d : Decimal) : List Char :=
  ((Nat.toDigits 10 d.digits).reverse.dropWhile (· == '0')).reverse

/-- An exponent: its sign and at least two digits. -/
def exponentText (e : Int) : List Char :=
  let digits := Nat.toDigits 10 e.natAbs
  (if e < 0 then '-' else '+') :: (if digits.length < 2 then '0' :: digits else digits)

/-- The text of a positive decimal. -/
def layout (d : Decimal) : List Char :=
  let digits := significant d
  -- the power of ten that the leading digit counts
  let lead := d.exponent + d.length - 1
  if -4 ≤ lead ∧ lead < 16 then
    if lead < 0 then
      '0' :: '.' :: List.replicate (-lead - 1).toNat '0' ++ digits
    else
      let whole := lead.toNat + 1
      if digits.length ≤ whole then
        digits ++ List.replicate (whole - digits.length) '0' ++ ['.', '0']
      else
        digits.take whole ++ '.' :: digits.drop whole
  else
    digits.take 1 ++ (if digits.length ≤ 1 then [] else '.' :: digits.drop 1)
      ++ 'e' :: exponentText lead

/-- The text of a floating-point number, with `nan`, `inf` and the sign of zero. -/
def floatText (x : Float) : String :=
  let bits := x.toBits
  let sign := if bits >>> 63 = 1 then "-" else ""
  if x.isNaN then "nan"
  else if x.isInf then sign ++ "inf"
  else
    let v := Binary.ofBits bits
    if v.m = 0 then sign ++ "0.0" else sign ++ String.ofList (layout v.shortest)

/-- The floating-point number nearest to `digits * 10 ^ exponent`. Beyond the range of 64 bits
the answer is known from the number of digits alone. -/
def nearestFloat (digits : Nat) (exponent : Int) : Float :=
  let lead := exponent + (Nat.toDigits 10 digits).length
  if digits = 0 ∨ lead < -400 then 0.0
  else if 400 < lead then 1.0 / 0.0
  else Float.ofScientific digits (decide (exponent < 0)) exponent.natAbs

example : floatText 1.5 = "1.5" ∧ floatText 1e16 = "1e+16" ∧ floatText 1.5e-7 = "1.5e-07" := by
  decide +kernel
example : floatText (0.1 + 0.2) = "0.30000000000000004" ∧ floatText 1e6 = "1000000.0" := by
  decide +kernel

end ShiftReduce.Decimal

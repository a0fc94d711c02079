import GraphQLStatics.Token.Number

/-!
# Float literals

The 64-bit binary floating-point number nearest to a decimal literal, as its
bit pattern.  All arithmetic is on natural numbers.

## Main Definitions

* `Decimal`: a digit string with a power of ten
* `Binary64.nearest`: the bits of the number nearest to a positive quotient
* `Decimal.bits`, `Decimal.ofLiteral?`

## Design Notes

A finite positive number is `m * 2 ^ q` with `-1074 ≤ q`, where
`2 ^ 52 ≤ m < 2 ^ 53` unless `q` is least.  Its bits are
`(q + 1074) * 2 ^ 52 + m`; this also holds when rounding up makes `m` equal to
`2 ^ 53`, and everything from `2047 * 2 ^ 52` on is infinity.
-/

namespace GraphQLStatics

namespace Binary64

/-- The quotient rounded to the nearest natural number, a tie to the even
one. -/
def roundDiv (a b : Nat) : Nat :=
  let q := a / b
  let r := a % b
  if 2 * r < b || (2 * r == b && q % 2 == 0) then q else q + 1

/-- The bits of positive infinity. -/
def infinity : Nat := 2047 * Nat.pow 2 52

/-- The bit that marks a negative number. -/
def signBit : Nat := Nat.pow 2 63

/-- The exponent `k` with `2 ^ k ≤ num / den < 2 ^ (k + 1)`, for positive
arguments. -/
def binaryExponent (num den : Nat) : Int :=
  let k : Int := (num.log2 : Int) - (den.log2 : Int)
  let reached : Bool :=
    if 0 ≤ k then den * Nat.pow 2 k.toNat ≤ num else den ≤ num * Nat.pow 2 (-k).toNat
  if reached then k else k - 1

/-- The bits of the number nearest to `num / den`, for positive arguments. -/
def nearest (num den : Nat) : Nat :=
  let q := max (binaryExponent num den - 52) (-1074)
  let m :=
    if 0 ≤ q then roundDiv num (den * Nat.pow 2 q.toNat)
    else roundDiv (num * Nat.pow 2 (-q).toNat) den
  min ((q + 1074).toNat * Nat.pow 2 52 + m) infinity

end Binary64

/-- The number `(-1) ^ negative * digits * 10 ^ exponent`. -/
structure Decimal where
  negative : Bool
  digits : Nat
  exponent : Int
  deriving DecidableEq, Repr

namespace Decimal

/-- The number written by decimal digits. -/
def natOfDigits (cs : List Char) : Nat :=
  cs.foldl (fun n c => 10 * n + (c.toNat - '0'.toNat)) 0

/-- The bits of the number nearest to the absolute value.  Beyond the two
bounds on the decimal magnitude the result is infinity or zero. -/
def magnitudeBits (d : Decimal) : Nat :=
  let magnitude := ((Nat.toDigits 10 d.digits).length : Int) + d.exponent
  if d.digits = 0 then 0
  else if 309 < magnitude then Binary64.infinity
  else if magnitude < -323 then 0
  else if 0 ≤ d.exponent then Binary64.nearest (d.digits * Nat.pow 10 d.exponent.toNat) 1
  else Binary64.nearest d.digits (Nat.pow 10 (-d.exponent).toNat)

/-- The bits of the nearest 64-bit number. -/
def bits (d : Decimal) : UInt64 :=
  ((if d.negative then Binary64.signBit else 0) + d.magnitudeBits).toUInt64

/-- The number written after an exponent mark; a sign needs digits after
it. -/
def exponentOf? : List Char → Option Int
  | '+' :: ds => if ds.isEmpty then none else some (natOfDigits ds)
  | '-' :: ds => if ds.isEmpty then none else some (-(natOfDigits ds : Int))
  | ds => if ds.isEmpty then none else some (natOfDigits ds)

/-- The number denoted by the characters of a float token. -/
def ofLiteral? (cs : List Char) : Option Decimal :=
  let negative := cs.head? == some '-'
  let unsigned := if negative then cs.drop 1 else cs
  let (mantissa, exponent?) :=
    match Token.splitLast Token.isExponentMark unsigned with
    | some (mantissa, exponent) => (mantissa, exponentOf? exponent)
    | none => (unsigned, some 0)
  let whole := mantissa.takeWhile Char.isDigit
  let fraction := (mantissa.dropWhile Char.isDigit).drop 1
  exponent?.map fun exponent =>
    { negative
      digits := natOfDigits (whole ++ fraction)
      exponent := exponent - fraction.length }

end Decimal

end GraphQLStatics

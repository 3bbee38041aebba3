import Ridership.Decimal.Numeral
import Ridership.Json.Value
import Ridership.Width

/-!
# What a number literal is worth

A literal without a point and an exponent is exact as long as it fits in 64
bits, with or without a sign. Every other literal becomes binary64 by a
short computation that does not always give the nearest number: as many
leading digits as fit in 64 bits are taken as one whole number, which is
then multiplied or divided by a power of ten. A literal whose number would
be infinite has no value.
-/

namespace Ridership.Json

open Ridership.Decimal (Numeral nearest)

/-- Appends digits to a whole number as long as the result stays below `2^64`;
gives the digits left over. -/
def absorb (n : Nat) : List Nat → Nat × List Nat
  | [] => (n, [])
  | d :: rest =>
      if n * 10 + d < widthSize 64 then absorb (n * 10 + d) rest
      else (n, d :: rest)

/-- The power `10^n`, for `n` up to 308. -/
def powerOfTen (n : Nat) : Float :=
  nearest 1 n

/-- Divides by `10^n`, in steps of `10^308`. -/
def divideByPower (x : Float) (n : Nat) : Float :=
  if n ≤ 308 then x / powerOfTen n
  else if x == 0.0 then x
  else divideByPower (x / powerOfTen 308) (n - 308)
termination_by n

/-- Multiplies by `10^n`, unless the result is infinite. -/
def multiplyByPower? (x : Float) (n : Nat) : Option Float :=
  if n ≤ 308 then
    let product := x * powerOfTen n
    if product.isInf then none else some product
  else if x == 0.0 then some x
  else none

/-- The number `digits · 10^exponent` by one multiplication or a few
divisions. -/
def scaled? (digits : Nat) (exponent : Int) : Option Float :=
  let x := (UInt64.ofNat digits).toFloat
  match exponent with
  | .ofNat n => multiplyByPower? x n
  | .negSucc n => some (divideByPower x (n + 1))

/-- The number of a numeral that is not a whole number of 64 bits. -/
def approximate? (n : Numeral) : Option Number :=
  let (digits, left) := absorb 0 n.whole
  let (digits, ignored) := absorb digits n.fraction
  let taken := n.fraction.length - ignored.length
  let exponent := (left.length : Int) - taken + n.power
  (scaled? digits exponent).map fun x => .float (if n.negative then -x else x)

/-- The number of a numeral. A minus sign before zero is kept, as only
binary64 can. -/
def Number.ofNumeral? (n : Numeral) : Option Number :=
  match absorb 0 n.whole with
  | (digits, []) =>
      if !n.fraction.isEmpty || n.exponent.isSome then approximate? n
      else if !n.negative then some (.whole digits)
      else if 0 < digits ∧ digits ≤ widthSize 63 then some (.whole (-digits))
      else approximate? n
  | (_, _ :: _) => approximate? n

/-- The number of a literal, if it has one in range. -/
def Number.ofLiteral? (literal : String) : Option Number :=
  (Numeral.read? literal.toList).bind Number.ofNumeral?

end Ridership.Json

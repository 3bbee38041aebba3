import Ridership.Width

/-!
# The fewest digits that read back

Every finite binary64 number is the nearest one to a whole interval of
reals, so many decimals read back as it. `shortest` takes one with the
fewest digits, and of those the one nearest to the number.

The work is exact. A magnitude is `m · 2^q`, its interval reaches half way
to its two neighbours, and for a grid of multiples of `10^k` only the two
grid points beside the number can matter: if any grid point lies in the
interval, one of those two does. The grids are tried from coarse to fine and
the first hit is the answer; a grid of seventeen digits always has one.
-/

namespace Ridership.Decimal

/-- A decimal number in scientific form: the digits `d₁ d₂ …` stand for
`d₁.d₂… · 10^exponent`. -/
structure Scientific where
  /-- The digits, the first not zero unless it stands alone. -/
  digits : List Char
  /-- The power of ten of the first digit. -/
  exponent : Int
  deriving DecidableEq, Repr

/-- Which of two decimals at the same distance is taken. -/
inductive Tie where
  /-- The one whose last digit is even. -/
  | even
  /-- The larger one. -/
  | up
  deriving DecidableEq, Repr

/-- The magnitude of a finite number as `m · 2^q`, read off its bits. -/
def magnitude (bits : UInt64) : Nat × Int :=
  let fraction := bits.toNat % widthSize 52
  let exponent : Nat := bits.toNat / widthSize 52 % widthSize 11
  if exponent = 0 then (fraction, (-1074 : Int))
  else (fraction + widthSize 52, Int.ofNat exponent - 1075)

/-- A number with the interval of reals that are nearest to it, as fractions
over one denominator. -/
structure Target where
  low : Nat
  value : Nat
  high : Nat
  denominator : Nat
  /-- Whether the ends of the interval belong to it. -/
  closed : Bool
  deriving DecidableEq, Repr

/-- The interval of the magnitude `m · 2^q`. In quarters of `2^q` it reaches
two each way, but only one downwards from a power of two, where the numbers
below lie twice as close; an even `m` wins both ends. -/
def Target.ofMagnitude (m : Nat) (q : Int) : Target :=
  let below := if m = widthSize 52 ∧ -1074 < q then 1 else 2
  let scale := Nat.pow 2 (q - 2).toNat
  { low := (4 * m - below) * scale
    value := 4 * m * scale
    high := (4 * m + 2) * scale
    denominator := Nat.pow 2 (2 - q).toNat
    closed := m % 2 = 0 }

/-- Whether `n` units of the grid lie in the interval, with the interval's ends
in units over `den`. -/
def Target.covers (t : Target) (scale den n : Nat) : Bool :=
  if t.closed then decide (t.low * scale ≤ n * den ∧ n * den ≤ t.high * scale)
  else decide (t.low * scale < n * den ∧ n * den < t.high * scale)

/-- The multiple of `10^k` that reads back as the number and lies nearest to
it, in units of `10^k`. -/
def Target.onGrid? (t : Target) (tie : Tie) (k : Int) : Option Nat :=
  let scale := Nat.pow 10 (-k).toNat
  let den := t.denominator * Nat.pow 10 k.toNat
  let below := t.value * scale / den
  let rest := t.value * scale % den
  match t.covers scale den below, t.covers scale den (below + 1) with
  | true, false => some below
  | false, true => some (below + 1)
  | false, false => none
  | true, true =>
      if 2 * rest < den then some below
      else if den < 2 * rest then some (below + 1)
      else match tie with
        | .even => some (if below % 2 = 0 then below else below + 1)
        | .up => some (below + 1)

/-- Tries the grids `10^k`, `10^(k-1)`, … for a number of times. -/
def Target.search (t : Target) (tie : Tie) : Nat → Int → Nat × Int
  | 0, k => (t.value, k)
  | tries + 1, k =>
      match t.onGrid? tie k with
      | some n => (n, k)
      | none => t.search tie tries (k - 1)

/-- A power of ten that is no smaller than the number, and at most a hundred
times as large. -/
def Target.topPower (t : Target) : Int :=
  let log₂ : Int := (Nat.log2 t.value : Int) - Nat.log2 t.denominator + 1
  Int.fdiv (log₂ * 30103) 100000 + 1

/-- The digits of a number without the zeros at its end. -/
def significantDigits (n : Nat) : List Char :=
  ((Nat.toDigits 10 n).reverse.dropWhile (· == '0')).reverse

/-- The number `n · 10^k` in scientific form. -/
def Scientific.ofNat (n : Nat) (k : Int) : Scientific :=
  if n = 0 then ⟨['0'], 0⟩
  else ⟨significantDigits n, k + (Nat.toDigits 10 n).length - 1⟩

/-- The shortest decimal that reads back as the magnitude of `x`, which must be
finite. -/
def shortest (tie : Tie) (x : Float) : Scientific :=
  let (m, q) := magnitude x.toBits
  if m = 0 then ⟨['0'], 0⟩
  else
    let target := Target.ofMagnitude m q
    let (n, k) := target.search tie 24 target.topPower
    Scientific.ofNat n k

end Ridership.Decimal

import Ridership.Width

/-!
# Decimal numerals

A numeral is read into its parts once, and what it is worth is decided
afterwards: `nearest` gives the binary64 number closest to it, however many
digits it has. The digits are put together as one whole number, so the only
rounding is the last step.

They are put together by joining neighbours, all of them over and over, and
not one after another. That keeps the work small where there are many, and
`ofDigits_eq` says that the number is still the one they spell.
-/

namespace Ridership.Decimal

/-! ## Digits -/

/-- The number that digits of a base spell, lowest first. -/
def placeValue (base : Nat) (digits : List Nat) : Nat :=
  digits.foldr (fun d n => d + base * n) 0

/-- Joins neighbours: digits of a base, lowest first, become digits of its
square. Those joined before are given last first. -/
def joinBehind (base : Nat) (before : List Nat) : List Nat → List Nat
  | low :: high :: rest => joinBehind base ((low + base * high) :: before) rest
  | [last] => (last :: before).reverse
  | [] => before.reverse

/-- The number that digits of a base spell, lowest first, worked out after so
many rounds of joining. -/
def placeValueBy (base : Nat) (digits : List Nat) : Nat → Nat
  | 0 => placeValue base digits
  | rounds + 1 => placeValueBy (base * base) (joinBehind base [] digits) rounds

theorem placeValue_append (base : Nat) (low high : List Nat) :
    placeValue base (low ++ high)
      = placeValue base low
        + Nat.pow base low.length * placeValue base high := by
  induction low with
  | nil => simp [placeValue]
  | cons d low ih =>
      have h : Nat.pow base (low.length + 1)
          = Nat.pow base low.length * base := rfl
      simp only [placeValue, List.cons_append, List.foldr_cons,
        List.length_cons, h] at ih ⊢
      rw [ih, Nat.mul_add, Nat.add_assoc,
        Nat.mul_comm (Nat.pow base low.length) base, Nat.mul_assoc]

theorem placeValue_joinBehind (base : Nat) (before digits : List Nat) :
    placeValue (base * base) (joinBehind base before digits) =
      placeValue (base * base) before.reverse
        + Nat.pow (base * base) before.length * placeValue base digits := by
  fun_induction joinBehind base before digits with
  | case1 before low high rest ih =>
      have h : Nat.pow (base * base) (before.length + 1)
          = Nat.pow (base * base) before.length * (base * base) := rfl
      rw [ih, List.reverse_cons, placeValue_append, List.length_reverse,
        List.length_cons, h]
      simp only [placeValue, List.foldr_cons, List.foldr_nil]
      grind
  | case2 before last =>
      rw [List.reverse_cons, placeValue_append, List.length_reverse]
      rfl
  | case3 before => simp [placeValue]

theorem placeValueBy_eq (base : Nat) (digits : List Nat) (rounds : Nat) :
    placeValueBy base digits rounds = placeValue base digits := by
  induction rounds generalizing base digits with
  | zero => rfl
  | succ rounds ih =>
      rw [placeValueBy, ih, placeValue_joinBehind]
      simp [placeValue]

/-- The number that decimal digits spell, highest first. -/
def ofDigits (digits : List Nat) : Nat :=
  placeValueBy 10 digits.reverse digits.length.log2

/-- Each digit behind makes ten times as much of those before it. -/
theorem ofDigits_eq (digits : List Nat) :
    ofDigits digits = digits.foldl (fun n d => n * 10 + d) 0 := by
  simp only [ofDigits, placeValueBy_eq, placeValue, List.foldr_reverse]
  congr
  funext n d
  omega

/-! ## Numerals -/

/-- What follows the `e` of a numeral. -/
structure Exponent where
  negative : Bool
  digits : List Nat
  deriving DecidableEq, Repr

/-- The power of ten that an exponent tells. -/
def Exponent.power (e : Exponent) : Int :=
  let n := ofDigits e.digits
  if e.negative then -(n : Int) else n

/-- The power of ten that an exponent tells to one who stops reading its digits
once `2^16` is reached. -/
def Exponent.shortPower (e : Exponent) : Int :=
  let n := e.digits.foldl
    (fun n d => if n < widthSize 16 then n * 10 + d else n) 0
  if e.negative then -(n : Int) else n

/-- A numeral such as `-12.50e3`, in parts. -/
structure Numeral where
  negative : Bool
  /-- The digits before the point. -/
  whole : List Nat
  /-- The digits after the point. -/
  fraction : List Nat
  exponent : Option Exponent
  deriving DecidableEq, Repr

/-- The power of ten that a numeral tells; none means one to the digits as
they stand. -/
def Numeral.power (n : Numeral) : Int :=
  (n.exponent.map Exponent.power).getD 0

/-- The digits at the front of a text, and what follows them. -/
def leadingDigits (text : List Char) : List Nat × List Char :=
  ((text.takeWhile Char.isDigit).map (fun c => c.toNat - '0'.toNat),
    text.dropWhile Char.isDigit)

/-- A sign at the front of a text, if there is one: whether it is a minus, and
what follows. -/
def leadingSign : List Char → Bool × List Char
  | '-' :: rest => (true, rest)
  | '+' :: rest => (false, rest)
  | text => (false, text)

/-- The exponent part that makes up a whole text; nothing counts as no
exponent. -/
def exponentPart? : List Char → Option (Option Exponent)
  | [] => some none
  | c :: rest =>
      if c = 'e' ∨ c = 'E' then
        let (negative, rest) := leadingSign rest
        match leadingDigits rest with
        | ([], _) => none
        | (digits, []) => some (some { negative, digits })
        | (_, _ :: _) => none
      else none

/-- The numeral that makes up a whole text. The sign may be left out, and so
may the digits on one side of the point. -/
def Numeral.read? (text : List Char) : Option Numeral :=
  let (negative, rest) := leadingSign text
  let (whole, rest) := leadingDigits rest
  let (fraction, rest) := match rest with
    | '.' :: rest => leadingDigits rest
    | rest => ([], rest)
  if whole.isEmpty && fraction.isEmpty then none
  else
    (exponentPart? rest).map fun exponent =>
      { negative, whole, fraction, exponent }

/-! ## The nearest number -/

/-- The number nearest to `digits · 10^exponent`. Far beyond both ends of
the range the power of ten is not worked out. How far the digits reach is
told by their bits: `b` bits reach beyond `10^(3b/10)` and not beyond
`10^(b/3 + 1)`. -/
def nearest (digits : Nat) (exponent : Int) : Float :=
  let atLeast : Nat := 3 * digits.log2 / 10
  let atMost : Nat := digits.log2 / 3 + 1
  if digits = 0 then 0.0
  else if 400 < exponent + atLeast then 1.0 / 0.0
  else if exponent + atMost < -400 then 0.0
  else
    match exponent with
    | .ofNat n => Float.ofScientific digits false n
    | .negSucc n => Float.ofScientific digits true (n + 1)

/-- The binary64 number nearest to a numeral; infinite where the numeral is out
of range. Of its exponent only the digits up to `2^16` count, which can be told
only where there are more digits before it than that. -/
def Numeral.toFloat (n : Numeral) : Float :=
  let power := (n.exponent.map Exponent.shortPower).getD 0
  let magnitude :=
    nearest (ofDigits (n.whole ++ n.fraction)) (power - n.fraction.length)
  if n.negative then -magnitude else magnitude

end Ridership.Decimal

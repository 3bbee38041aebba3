import Ridership.Decimal.Shortest

/-!
# How a binary64 number is written

The digits come from `shortest`. Everything else about a written number is a
choice, and all the choices stand together in one `Style`: where positional
notation gives way to an exponent, what follows a whole number, how a tie
between two shortest decimals goes, and the words for what is no finite
number.
-/

namespace Ridership.Decimal

/-- The choices that fix how a number is written. -/
structure Style where
  /-- Which of two equally near shortest decimals is written. -/
  tie : Tie
  /-- The least and the greatest exponent written without an exponent part; all
  of them if absent. -/
  positional : Option (Int × Int)
  /-- What follows a number that has no fraction, in positional notation. -/
  wholeMark : String
  /-- The word for an infinite number, without its sign. -/
  infinite : String
  /-- The word for what is not a number. -/
  notANumber : String
  deriving DecidableEq, Repr

/-- `n` zeros. -/
def zeros (n : Nat) : String :=
  String.ofList (List.replicate n '0')

/-- A number with its point among or beside its digits. -/
def Scientific.positional (s : Scientific) (wholeMark : String) : String :=
  match s.exponent with
  | .negSucc n => "0." ++ zeros n ++ String.ofList s.digits
  | .ofNat n =>
      if s.digits.length ≤ n + 1 then
        String.ofList s.digits ++ zeros (n + 1 - s.digits.length) ++ wholeMark
      else
        String.ofList (s.digits.take (n + 1)) ++ "."
          ++ String.ofList (s.digits.drop (n + 1))

/-- A number with its point after the first digit, and the power of ten after
an `e` with its sign. -/
def Scientific.exponential (s : Scientific) : String :=
  let mantissa := match s.digits with
    | [] => "0"
    | [d] => String.ofList [d]
    | d :: more => String.ofList (d :: '.' :: more)
  match s.exponent with
  | .ofNat n => mantissa ++ "e+" ++ toString n
  | .negSucc n => mantissa ++ "e-" ++ toString (n + 1)

/-- Whether the number carries a minus sign; zero may. -/
def isNegative (x : Float) : Bool :=
  x.toBits.toNat / widthSize 63 = 1

/-- The text of a number in a style. -/
def Style.render (style : Style) (x : Float) : String :=
  if x.isNaN then style.notANumber
  else
    let magnitude :=
      if x.isInf then style.infinite
      else
        let s := shortest style.tie x
        match style.positional with
        | none => s.positional style.wholeMark
        | some (least, greatest) =>
            if least ≤ s.exponent ∧ s.exponent ≤ greatest then
              s.positional style.wholeMark
            else s.exponential
    if isNegative x then "-" ++ magnitude else magnitude

/-- Plain decimal notation, however long, and nothing after a whole number. -/
def plain : Style :=
  { tie := .up, positional := none, wholeMark := "", infinite := "inf",
    notANumber := "NaN" }

end Ridership.Decimal

/-!
# Whole numbers of a fixed width

A width of so many bits holds a power of two of whole numbers: those from
zero on, or, with a sign, as many below zero as from zero on.
-/

namespace Ridership

/-- How many whole numbers a width holds. -/
def widthSize (bits : Nat) : Nat :=
  Nat.pow 2 bits

/-- Whether a whole number fits in a width without a sign. -/
def fitsUnsigned (bits : Nat) (n : Int) : Bool :=
  0 ≤ n && n < widthSize bits

/-- Whether a whole number fits in a width with a sign. -/
def fitsSigned (bits : Nat) (n : Int) : Bool :=
  -(widthSize (bits - 1) : Int) ≤ n && n < widthSize (bits - 1)

end Ridership

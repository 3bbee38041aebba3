import Ridership.Forecast.Error
import Ridership.Json.Decode

/-!
# Passenger distributions

A distribution is told by its steps: each entry gives the probability that
at most so many passengers are on board. Producers write the entries in
ascending order, but nothing here relies on it, and what comes out for other
lists is fixed by the order of the entries alone.

The two questions asked of a distribution are each other's counterpart: how
probable it is to stay within a limit, and which count a given probability
reaches.
-/

namespace Ridership.Forecast

open Json (Value Reader DecodeFault)

/-- One step of a distribution. -/
structure CdfEntry where
  passengers : UInt32
  /-- The probability that at most `passengers` are on board. -/
  probability : Float

/-- The probability that at most `limit` passengers are on board: that of the
last entry before the first one above the limit, and zero if there is none. -/
def probabilityAtMost (cdf : List CdfEntry) (limit : Float) : Float :=
  match (cdf.takeWhile
      fun entry => entry.passengers.toFloat ≤ limit).getLast? with
  | some entry => entry.probability
  | none => 0.0

/-- The probability that more than `limit` passengers are on board. -/
def probabilityExceeding (cdf : List CdfEntry) (limit : Float) : Float :=
  1.0 - probabilityAtMost cdf limit

/-- The middle between two counts. -/
def midpoint (a b : UInt32) : Float :=
  (a.toFloat + b.toFloat) / 2.0

/-- The count at which the entries behind `previous` reach a probability. An
entry that meets it exactly gives its own count; otherwise the first entry
above it gives the middle between the entry before and itself. -/
def quantileFrom (level : Float) (previous : Option CdfEntry) :
    List CdfEntry → Option Float
  | [] => none
  | entry :: rest =>
      if entry.probability == level then some entry.passengers.toFloat
      else if entry.probability > level then
        match previous with
        | some before => some (midpoint before.passengers entry.passengers)
        | none => some entry.passengers.toFloat
      else quantileFrom level (some entry) rest

/-- The count at which a distribution reaches a probability. -/
def quantile (cdf : List CdfEntry) (level : Float) :
    Except ForecastError Float :=
  match quantileFrom level none cdf with
  | some count => .ok count
  | none => .error (.invalidCdf level)

/-! ## Reading and writing -/

def CdfEntry.shape : Json.Shape := .record "CdfEntry"

def CdfEntry.check : String → Value → Except DecodeFault Unit
  | "passengers", v => Json.reads Json.readNatural32 v
  | "probability", v => Json.reads Json.readBinary64 v
  | _, _ => .ok ()

/-- Reads an entry: an object, or an array of the two numbers. -/
def CdfEntry.read : Reader CdfEntry
  | .object members => do
      Json.checkFields CdfEntry.check members
      let passengers ←
        Json.requiredField "passengers" Json.readNatural32 members
      let probability ←
        Json.requiredField "probability" Json.readBinary64 members
      return { passengers, probability }
  | .array [] => .error (.tooFew 0 shape 2)
  | .array (count :: rest) => do
      let passengers ← Json.readNatural32 count
      match rest with
      | [] => .error (.tooFew 1 shape 2)
      | share :: beyond =>
          let probability ← Json.readBinary64 share
          if beyond.isEmpty then return { passengers, probability }
          else .error (.tooMany (2 + beyond.length))
  | v => .error (.wrongType v shape)

def writeCount (n : UInt32) : Value := .number (.whole n.toNat)

def writeFloat (x : Float) : Value := .number (.float x)

def CdfEntry.toValue (entry : CdfEntry) : Value :=
  .object [("passengers", writeCount entry.passengers),
    ("probability", writeFloat entry.probability)]

end Ridership.Forecast

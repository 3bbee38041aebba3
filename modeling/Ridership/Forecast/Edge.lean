import Ridership.Forecast.Cdf
import Ridership.Forecast.Station
import Ridership.Decimal.Numeral
import Ridership.Text.Blank

/-!
# Edges: rides from one stop to the next

An edge comes with the distribution of its passengers and, often, with the
capacity of the train. Only a usable capacity makes the load worth telling:
then the edge is summed up by a handful of quantiles and the probability of
overload, and these are written beside its own fields.
-/

namespace Ridership.Forecast

open Json (Value Reader DecodeFault)

/-- The number that a capacity stands for: a number, or a text that is one. It
must be finite and positive. -/
def usableCapacity (capacity : Option Value) : Option Float := do
  let x ← match ← capacity with
    | .number n => some n.toFloat
    | .string s =>
        (Decimal.Numeral.read? (Text.trimmed s.toList)).map
          Decimal.Numeral.toFloat
    | _ => none
  if x.isFinite && x > 0.0 then some x else none

/-- An edge as the log has it. -/
structure RawEdge where
  origin : Station
  target : Station
  /-- As it was written. -/
  capacity : Option Value
  cdf : List CdfEntry
  /-- All other fields, as they were. -/
  extra : List (String × Value)

/-- Whether the edge ends where it begins. Such an edge tells
nothing of a load. -/
def RawEdge.isSelfLoop (e : RawEdge) : Bool :=
  e.origin.id = e.target.id

/-- What an edge's distribution says about its load. -/
structure EdgeSummary where
  /-- The probability of more passengers than the capacity. -/
  overload : Float
  q5 : Float
  q20 : Float
  q50 : Float
  q80 : Float
  q95 : Float
  /-- The counts of the first and of the last entry. -/
  leastPassengers : UInt32
  mostPassengers : UInt32

/-- How far apart the least and the greatest count are. -/
def EdgeSummary.spread (s : EdgeSummary) : Nat :=
  s.mostPassengers.toNat - s.leastPassengers.toNat

/-- An edge of a forecast. -/
structure Edge where
  origin : Station
  target : Station
  capacity : Option Value
  cdf : List CdfEntry
  summary : Option EdgeSummary
  extra : List (String × Value)

/-- An edge without a summary. -/
def Edge.unsummarized (e : RawEdge) : Edge :=
  { origin := e.origin, target := e.target, capacity := e.capacity,
    cdf := e.cdf, summary := none, extra := e.extra }

/-- An edge's capacity and its summary, if it has both. -/
def Edge.load (e : Edge) : Option (Float × EdgeSummary) := do
  let capacity ← usableCapacity e.capacity
  let summary ← e.summary
  return (capacity, summary)

/-- Sums up a distribution for a capacity. The quantiles are asked for in
ascending order, so the lowest one that the distribution does not reach is the
one to fail. -/
def EdgeSummary.ofCdf (cdf : List CdfEntry) (capacity : Float) :
    Except ForecastError EdgeSummary := do
  let q5 ← quantile cdf 0.05
  let q20 ← quantile cdf 0.20
  let q50 ← quantile cdf 0.50
  let q80 ← quantile cdf 0.80
  let q95 ← quantile cdf 0.95
  return {
    overload := probabilityExceeding cdf capacity
    q5, q20, q50, q80, q95
    leastPassengers := (cdf.head?.map CdfEntry.passengers).getD 0
    mostPassengers := (cdf.getLast?.map CdfEntry.passengers).getD 0 }

/-- Sums up an edge. Without a usable capacity it passes as it is, whatever its
distribution. -/
def Edge.summarize (e : RawEdge) : Except ForecastError Edge :=
  match usableCapacity e.capacity with
  | none => .ok (unsummarized e)
  | some capacity => do
      let summary ← EdgeSummary.ofCdf e.cdf capacity
      return { unsummarized e with summary := some summary }

/-! ## Reading and writing -/

def RawEdge.check : String → Value → Except DecodeFault Unit
  | "from", v => Json.reads Station.read v
  | "to", v => Json.reads Station.read v
  | "passenger_cdf", v => Json.reads (Json.readList CdfEntry.read) v
  | _, _ => .ok ()

def RawEdge.read : Reader RawEdge
  | .object members => do
      Json.checkFields RawEdge.check members
      let origin ← Json.requiredField "from" Station.read members
      let target ← Json.requiredField "to" Station.read members
      let capacity ← Json.optionalField "capacity" none Json.readAny members
      let cdf ←
        Json.optionalField "passenger_cdf" [] (Json.readList CdfEntry.read)
          members
      return {
        origin, target, capacity, cdf,
        extra :=
          Json.otherMembers ["from", "to", "capacity", "passenger_cdf"]
            members }
  | v => .error (.wrongType v (.record "RawEdgeForecast"))

/-- The fields of a summary as they are written into its edge. -/
def EdgeSummary.members (s : EdgeSummary) : List (String × Value) :=
  [("p_load_gt_100", writeFloat s.overload), ("q_5", writeFloat s.q5),
    ("q_20", writeFloat s.q20), ("q_50", writeFloat s.q50),
    ("q_80", writeFloat s.q80), ("q_95", writeFloat s.q95),
    ("min_pax", writeCount s.leastPassengers),
    ("max_pax", writeCount s.mostPassengers)]

/-- An edge is written with its own fields first, then the summary, then the
fields that came with it. -/
def Edge.toValue (e : Edge) : Value :=
  .object ([("from", e.origin.toValue), ("to", e.target.toValue)]
    ++ Json.writtenIf "capacity" id e.capacity
    ++ [("passenger_cdf", .array (e.cdf.map CdfEntry.toValue))]
    ++ (e.summary.map EdgeSummary.members).getD []
    ++ e.extra)

end Ridership.Forecast

import Ridership.Forecast.Edge
import Ridership.Forecast.Trip

/-!
# The forecast for one trip

A trip's edges become its forecast. Edges that end where they begin are left
out of it, but whether the capacity is known all along the way is asked of
every edge that was in the log. The aggregates are taken over the edges that
have a load to tell, and are zero where there is none.
-/

namespace Ridership.Forecast

open Json (Value)

/-- What is known about a line's trips besides their edges; it holds for later
trips until it is replaced. -/
structure TripContext where
  primaryStation : Option Station
  secondaryStation : Option Station
  serviceInfos : Option (List ServiceInfo)

/-- Nothing known. -/
def TripContext.empty : TripContext := ⟨none, none, none⟩

/-- The greatest values over the edges of a trip. -/
structure Extremes where
  capacity : Float
  passengers : Nat
  load : Float
  spread : Nat

/-- The values of no edges. -/
def Extremes.none : Extremes := ⟨0.0, 0, 0.0, 0⟩

/-- The greater of two numbers. -/
def greater (x y : Float) : Float :=
  if x < y then y else x

/-- Takes in the load of one more edge. -/
def Extremes.add (m : Extremes) (load : Float × EdgeSummary) : Extremes :=
  let (capacity, summary) := load
  { capacity := greater m.capacity capacity
    passengers := max m.passengers summary.mostPassengers.toNat
    load := greater m.load (summary.mostPassengers.toFloat / capacity)
    spread := max m.spread summary.spread }

/-- The greatest values over some edges. -/
def Extremes.ofEdges (edges : List Edge) : Extremes :=
  (edges.filterMap Edge.load).foldl Extremes.add Extremes.none

/-- The forecast for a trip. -/
structure TripForecast where
  trip : Trip
  edges : List Edge
  allEdgesHaveCapacity : Bool
  maxCapacity : Float
  maxPassengers : Nat
  maxLoad : Float
  maxSpread : Nat
  primaryStation : Option Station
  secondaryStation : Option Station
  serviceInfos : Option (List ServiceInfo)
  displayName : String
  /-- The time of the snapshot that the forecast was found in, once
  that is known. -/
  systemTime : Option Int

/-- The forecast for a trip with these edges. The first edge whose distribution
falls short decides the error. -/
def TripForecast.assemble (trip : Trip) (raw : List RawEdge)
    (context : TripContext) : Except ForecastError TripForecast := do
  let edges ← (raw.filter fun e => !e.isSelfLoop).mapM Edge.summarize
  let extremes := Extremes.ofEdges edges
  return {
    trip, edges
    allEdgesHaveCapacity := raw.all fun e => (usableCapacity e.capacity).isSome
    maxCapacity := extremes.capacity
    maxPassengers := extremes.passengers
    maxLoad := extremes.load
    maxSpread := extremes.spread
    primaryStation := context.primaryStation
    secondaryStation := context.secondaryStation
    serviceInfos := context.serviceInfos
    displayName := trip.displayName context.serviceInfos
    systemTime := none }

/-- The fields of a forecast as they are written. -/
def TripForecast.members (f : TripForecast) : List (String × Value) :=
  [("trip", f.trip.toValue),
    ("edges", .array (f.edges.map Edge.toValue)),
    ("allEdgesHaveCapacity", .bool f.allEdgesHaveCapacity),
    ("maxCapacity", writeFloat f.maxCapacity),
    ("maxPax", .number (.whole f.maxPassengers)),
    ("maxLoad", writeFloat f.maxLoad),
    ("maxSpread", .number (.whole f.maxSpread)),
    ("primaryStation", Json.orNull Station.toValue f.primaryStation),
    ("secondaryStation", Json.orNull Station.toValue f.secondaryStation),
    ("serviceInfos", Json.orNull
      (fun infos => .array (infos.map ServiceInfo.toValue)) f.serviceInfos),
    ("tripDisplayName", .string f.displayName)]
    ++ Json.writtenIf "systemTime" (fun t => .number (.whole t)) f.systemTime

def TripForecast.toValue (f : TripForecast) : Value :=
  .object f.members

end Ridership.Forecast

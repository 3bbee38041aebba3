import Ridership.Forecast.TripForecast
import Ridership.Json.Selection

/-!
# From the sub-trees of a line to its forecasts

The sub-trees of a line arrive in the order of the text. A trip waits for
its edges, and every list of edges uses the waiting trip up, whatever
becomes of it. Stations and services stay in force until they are replaced,
so later trips of the line share them. A sub-tree that does not read
replaces nothing.
-/

namespace Ridership.Forecast

open Json (Value Reader Selected)

/-- What a list of edges led to. -/
inductive Outcome where
  | forecast (f : TripForecast)
  /-- The trip is lost, for its distributions fall short; the line goes on. -/
  | rejected (trip : Trip) (cause : ForecastError)

/-- What is known of a line so far. -/
structure Assembler where
  /-- The trip that waits for its edges. -/
  waiting : Option Trip
  context : TripContext

/-- Nothing known. -/
def Assembler.start : Assembler := ⟨none, .empty⟩

/-- Reads a sub-tree; `offset` is the place to tell if it does not read. -/
def readSelected {α : Type} (read : Reader α) (key : String) (v : Value)
    (offset : Nat) : Except ForecastError α :=
  match read v with
  | .ok a => .ok a
  | .error fault =>
      .error (.malformedRecord offset s!"invalid {key}: {fault.message}")

/-- The outcome of a trip with these edges. A distribution that falls short
costs only the trip. -/
def Outcome.ofEdges (trip : Trip) (edges : List RawEdge)
    (context : TripContext) : Except ForecastError Outcome :=
  match TripForecast.assemble trip edges context with
  | .ok f => .ok (.forecast f)
  | .error (.invalidCdf level) => .ok (.rejected trip (.invalidCdf level))
  | .error error => .error error

/-- Replaces a part of what is known by what a sub-tree reads as. -/
def Assembler.update {α : Type} (a : Assembler) (read : Reader α)
    (key : String) (v : Value) (offset : Nat) (set : α → Assembler) :
    Assembler × Except ForecastError (Option Outcome) :=
  match readSelected read key v offset with
  | .ok x => (set x, .ok none)
  | .error error => (a, .error error)

/-- Takes the next sub-tree. -/
def Assembler.accept (a : Assembler) (found : Selected) (offset : Nat) :
    Assembler × Except ForecastError (Option Outcome) :=
  match found with
  | .object key members =>
      let v := Value.object members
      match key with
      | "trip" =>
          a.update Trip.read key v offset fun t => { a with waiting := some t }
      | "primary_station" =>
          a.update Station.read key v offset fun s =>
            { a with context := { a.context with primaryStation := some s } }
      | "secondary_station" =>
          a.update Station.read key v offset fun s =>
            { a with context := { a.context with secondaryStation := some s } }
      | _ => (a, .ok none)
  | .array key items =>
      let v := Value.array items
      match key with
      | "service_infos" =>
          a.update (Json.readList ServiceInfo.read) key v offset fun infos =>
            { a with context := { a.context with serviceInfos := some infos } }
      | "edges" =>
          match a.waiting with
          | none => (a, .ok none)
          | some trip =>
              let outcome := do
                let edges ←
                  readSelected (Json.readList RawEdge.read) key v offset
                Outcome.ofEdges trip edges a.context
              ({ a with waiting := none }, outcome.map some)
      | _ => (a, .ok none)

end Ridership.Forecast

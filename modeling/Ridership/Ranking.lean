import Ridership.Forecast.LineReading
import Ridership.Log.Index

/-!
# The most uncertain trips

A trip is interesting when its forecast is uncertain: the further apart the
least and the greatest passenger count on one of its edges, the higher it
ranks. A ranking is offered one trip after another and keeps the best of
them, in descending order, earlier ones first among equals.

A trip is taken only if it beats the lowest one kept, even while there is
room. So what a descending sequence leaves is its first trip alone.
-/

namespace Ridership

open Forecast (ForecastError Report TripForecast)
open Log (Line Progress)
open Storage (ByteSource)

/-- A trip that is kept, and the line it was found on. -/
structure RankedTrip where
  line : Line
  forecast : TripForecast

/-- How uncertain a trip is. -/
def RankedTrip.spread (t : RankedTrip) : Nat :=
  t.forecast.maxSpread

/-- The trips kept so far. -/
structure Ranking where
  /-- In descending order of their spread. -/
  trips : List RankedTrip
  /-- How many there may be. -/
  capacity : Nat
  /-- The least and the greatest spread kept; zero if there is none. -/
  minSpread : Nat
  maxSpread : Nat

/-- A ranking that has been offered nothing. -/
def Ranking.empty (capacity : Nat) : Ranking := ⟨[], capacity, 0, 0⟩

/-- Puts a trip behind those that are at least as uncertain. -/
def RankedTrip.insertInto (t : RankedTrip) (trips : List RankedTrip) :
    List RankedTrip :=
  trips.takeWhile (fun u => t.spread ≤ u.spread)
    ++ t :: trips.dropWhile fun u => t.spread ≤ u.spread

/-- The ranking with other trips. -/
def Ranking.withTrips (r : Ranking) (trips : List RankedTrip) : Ranking :=
  { r with trips
           minSpread := (trips.getLast?.map RankedTrip.spread).getD 0
           maxSpread := (trips.head?.map RankedTrip.spread).getD 0 }

/-- Whether a trip would be taken. -/
def Ranking.takes (r : Ranking) (f : TripForecast) : Bool :=
  r.capacity ≠ 0 && f.maxSpread ≠ 0 && f.allEdgesHaveCapacity
    && decide (r.minSpread < f.maxSpread)

/-- Offers a trip found on a line, and tells whether it was taken. A trip that
is kept carries the time of its line. -/
def Ranking.offer (r : Ranking) (f : TripForecast) (line : Line) :
    Ranking × Bool :=
  if r.takes f then
    let t : RankedTrip :=
      { line, forecast := { f with systemTime := line.systemTime } }
    (r.withTrips ((t.insertInto r.trips).take r.capacity), true)
  else (r, false)

/-- Offers what was reported of a line. -/
def Ranking.offerReports (r : Ranking) (line : Line) (reports : List Report) :
    Ranking :=
  reports.foldl (fun r report =>
    match report with
    | .outcome (.forecast f) => (r.offer f line).1
    | _ => r) r

/-- Ranks the trips of the lines from the `index`-th of `total` on. A line that
does not read is passed over, but the trips it gave before stay ranked; bytes
that cannot be had end the pass. -/
def rankLines (source : ByteSource) (settings : Settings) (total : Nat)
    (ranking : Ranking) (progress : List Progress) (index : Nat) :
    List Line → List Progress × Except ForecastError (List RankedTrip)
  | [] => (progress.reverse, .ok ranking.trips)
  | line :: rest =>
      let progress := ⟨index, total⟩ :: progress
      match Forecast.readLine source settings line with
      | (_, .error (.streamRead cause)) =>
          (progress.reverse, .error (.streamRead cause))
      | (reports, _) =>
          rankLines source settings total (ranking.offerReports line reports)
            progress (index + 1) rest

/-- The most uncertain trips of a log, and the progress told
before each line. -/
def interestingTrips (source : ByteSource) (settings : Settings)
    (lines : List Line) :
    List Progress × Except ForecastError (List RankedTrip) :=
  rankLines source settings lines.length (.empty settings.rankingSize) [] 0
    lines

end Ridership

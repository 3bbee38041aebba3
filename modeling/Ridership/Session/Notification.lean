import Ridership.Ranking

/-!
# What a command tells while it runs

Notifications are written as JSON objects that say in `op` what they are. A
body of several is their texts, one a line; a JSON text holds no line end of
its own, so the lines are the notifications again.
-/

namespace Ridership.Session

open Forecast (Trip TripForecast)
open Json (Value)
open Log (Line)

/-- A message about a command. -/
inductive Notification where
  | fileLoadProgress (offset size : Nat)
  | fileLoaded (lines : List Line)
  | forecastInfoProgress (line : Line) (progress size : Nat)
  | tripForecast (line : Line) (forecast : TripForecast)
  | tripRejected (line : Line) (trip : Trip) (error : String)
  | forecastInfoDone (line : Line)
  | interestingTripsProgress (progress size : Nat)
  | interestingTripsDone
  | commandFailed (command error : String)

def writeNat (n : Nat) : Value := .number (.whole n)

/-- What a notification says it is. -/
def Notification.op : Notification → String
  | .fileLoadProgress _ _ => "fileLoadProgress"
  | .fileLoaded _ => "fileLoaded"
  | .forecastInfoProgress _ _ _ => "getForecastInfoProgress"
  | .tripForecast _ _ => "tripForecast"
  | .tripRejected _ _ _ => "tripRejected"
  | .forecastInfoDone _ => "getForecastInfoDone"
  | .interestingTripsProgress _ _ => "findInterestingTripsProgress"
  | .interestingTripsDone => "findInterestingTripsDone"
  | .commandFailed _ _ => "commandFailed"

/-- The fields of a notification behind `op`. A forecast's own fields stand
among them. -/
def Notification.members : Notification → List (String × Value)
  | .fileLoadProgress offset size =>
      [("offset", writeNat offset), ("size", writeNat size)]
  | .fileLoaded lines => [("lines", .array (lines.map Line.toValue))]
  | .forecastInfoProgress line progress size =>
      [("line", line.toValue), ("progress", writeNat progress),
        ("size", writeNat size)]
  | .tripForecast line forecast => ("line", line.toValue) :: forecast.members
  | .tripRejected line trip error =>
      [("line", line.toValue), ("trip", trip.toValue), ("error", .string error)]
  | .forecastInfoDone line => [("line", line.toValue)]
  | .interestingTripsProgress progress size =>
      [("progress", writeNat progress), ("size", writeNat size)]
  | .interestingTripsDone => []
  | .commandFailed command error =>
      [("command", .string command), ("error", .string error)]

def Notification.toValue (n : Notification) : Value :=
  .object (("op", .string n.op) :: n.members)

/-- Notifications as a body of lines. -/
def bodyOfLines (notifications : List Notification) : String :=
  notifications.foldl (fun out n => (n.toValue.write out).push '\n') ""

end Ridership.Session

import Ridership.Session.Notification

/-!
# The loaded log and the commands about it

A dispatcher holds at most one loaded log with its lines, and runs commands
one after another. Loading forgets the log of before at once, and keeps the
new one only if all its lines were found; the other commands leave the log
alone. A command that fails says so in a last notification, and no other
command says that.

What a source delivers may change between commands, for a file may. So a
command is given the sources as they are while it runs.
-/

namespace Ridership.Session

open Forecast (ForecastError Report)
open Log (Line Progress)
open Storage (ByteSource)

/-- A cause for a command to fail. -/
inductive CommandError where
  | noFileLoaded
  | lineOutOfRange (index count : Nat)
  | forecast (error : ForecastError)

/-- The words for an error. -/
def CommandError.message : CommandError → String
  | .noFileLoaded => "no file loaded"
  | .lineOutOfRange index count =>
      s!"line {index} out of range ({count} lines loaded)"
  | .forecast error => error.message

/-- Something to be done; `S` tells sources apart. -/
inductive Command (S : Type) where
  | loadFile (source : S)
  | forecastInfo (line : Line)
  | interestingTrips

/-- A command's name in notifications. -/
def Command.name {S : Type} : Command S → String
  | .loadFile _ => "loadFile"
  | .forecastInfo _ => "getForecastInfo"
  | .interestingTrips => "findInterestingTrips"

/-- A log and its lines. -/
structure LoadedLog (S : Type) where
  source : S
  lines : List Line

/-- What is kept between commands. -/
structure Dispatcher (S : Type) where
  settings : Settings
  log : Option (LoadedLog S)

variable {S : Type}

/-- A dispatcher without a log. -/
def Dispatcher.start (settings : Settings) : Dispatcher S := ⟨settings, none⟩

/-- The log that is loaded. -/
def Dispatcher.loaded (d : Dispatcher S) : Except CommandError (LoadedLog S) :=
  match d.log with
  | some log => .ok log
  | none => .error .noFileLoaded

/-- The line of an index. -/
def LoadedLog.line (log : LoadedLog S) (index : Nat) :
    Except CommandError Line :=
  match log.lines[index]? with
  | some line => .ok line
  | none => .error (.lineOutOfRange index log.lines.length)

/-- The line of an index in the log that is loaded. -/
def Dispatcher.line (d : Dispatcher S) (index : Nat) :
    Except CommandError Line := do
  (← d.loaded).line index

/-- What a command comes to: the state after it, what it told, and
how it ended. -/
abbrev Run (S : Type) :=
  Dispatcher S × List Notification × Except CommandError Unit

/-- Finds the lines of a log and keeps it. -/
def Dispatcher.loadFile (view : S → ByteSource) (d : Dispatcher S)
    (source : S) : Run S :=
  let (progress, result) := Log.indexLines (view source) d.settings
  let told := progress.map fun p => Notification.fileLoadProgress p.done p.total
  match result with
  | .ok lines =>
      ({ d with log := some ⟨source, lines⟩ }, told ++ [.fileLoaded lines],
        .ok ())
  | .error error => ({ d with log := none }, told, .error (.forecast error))

/-- What a report about a line is told as. -/
def Notification.ofReport (line : Line) : Report → Notification
  | .outcome (.forecast f) => .tripForecast line f
  | .outcome (.rejected trip cause) => .tripRejected line trip cause.message
  | .progress consumed size => .forecastInfoProgress line consumed size
  | .done => .forecastInfoDone line

/-- Reads the forecasts of a line. -/
def Dispatcher.forecastInfo (view : S → ByteSource) (d : Dispatcher S)
    (line : Line) : Run S :=
  match d.loaded with
  | .error error => (d, [], .error error)
  | .ok log =>
      let (reports, result) :=
        Forecast.readLine (view log.source) d.settings line
      (d, reports.map (Notification.ofReport line),
        result.mapError CommandError.forecast)

/-- Ranks the trips of all lines. -/
def Dispatcher.interestingTrips (view : S → ByteSource) (d : Dispatcher S) :
    Run S :=
  match d.loaded with
  | .error error => (d, [], .error error)
  | .ok log =>
      let (progress, result) :=
        Ridership.interestingTrips (view log.source) d.settings log.lines
      let told := progress.map fun p =>
        Notification.interestingTripsProgress p.done p.total
      match result with
      | .ok trips =>
          (d, told
            ++ trips.map (fun t => Notification.tripForecast t.line t.forecast)
            ++ [.interestingTripsDone], .ok ())
      | .error error => (d, told, .error (.forecast error))

/-- Runs a command, without a word about its failure. -/
def Dispatcher.run (view : S → ByteSource) (d : Dispatcher S) :
    Command S → Run S
  | .loadFile source => d.loadFile view source
  | .forecastInfo line => d.forecastInfo view line
  | .interestingTrips => d.interestingTrips view

/-- Runs a command. -/
def Dispatcher.handle (view : S → ByteSource) (d : Dispatcher S)
    (c : Command S) : Run S :=
  match d.run view c with
  | (d, told, .ok ()) => (d, told, .ok ())
  | (d, told, .error error) =>
      (d, told ++ [.commandFailed c.name error.message], .error error)

end Ridership.Session

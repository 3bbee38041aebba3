import Ridership.Session.Dispatcher

/-!
# What a command comes to

A command asks one thing of one source, and all that it tells and keeps follows
from the answer. The equations here say how, one for each command: what is
kept, then what is told, then how the command ended. They are the only place
where a command is opened up.

What is told falls into what was told on the way and what the answer itself is
told as, if there is one. Behind both stands the notice of a failure, and that
is the same for all commands (`Dispatcher.handle_eq`).
-/

namespace Ridership.Session

open Forecast (ForecastError Report readLine)
open Log (Line Progress indexLines)
open Storage (ByteSource)

/-! ## How an answer is told -/

/-- The lines of a log as they are told. -/
def loadedNotes : Except ForecastError (List Line) → List Notification
  | .ok lines => [.fileLoaded lines]
  | .error _ => []

/-- The trips of a ranking as they are told. -/
def rankedNotes : Except ForecastError (List RankedTrip) → List Notification
  | .ok trips =>
      trips.map (fun t => .tripForecast t.line t.forecast)
        ++ [.interestingTripsDone]
  | .error _ => []

/-- How a command ended that had this answer. -/
def endedWith {α : Type} (answer : Except ForecastError α) :
    Except CommandError Unit :=
  (answer.map fun _ => ()).mapError .forecast

@[simp] theorem endedWith_ok {α : Type} (a : α) :
    endedWith (.ok a) = .ok () := rfl

@[simp] theorem endedWith_error {α : Type} (error : ForecastError) :
    endedWith (.error error : Except ForecastError α)
      = .error (.forecast error) := rfl

section

variable {S : Type}

/-- What a command adds to what it has told, if it failed. -/
def failureNotes (c : Command S) : Except CommandError Unit → List Notification
  | .ok () => []
  | .error error => [.commandFailed c.name error.message]

/-- The log that a load leaves. -/
def logOf (settings : Settings) (view : S → ByteSource) (source : S) :
    Option (LoadedLog S) :=
  match (indexLines (view source) settings).2 with
  | .ok lines => some ⟨source, lines⟩
  | .error _ => none

/-- Whether a command asks about the log that is loaded. -/
def Command.isQuery : Command S → Bool
  | .loadFile _ => false
  | .forecastInfo _ | .interestingTrips => true

/-! ## The commands -/

variable (view : S → ByteSource) (d : Dispatcher S)

theorem Dispatcher.handle_eq (c : Command S) :
    d.handle view c
      = ((d.run view c).1,
        (d.run view c).2.1 ++ failureNotes c (d.run view c).2.2,
        (d.run view c).2.2) := by
  rw [handle]
  rcases d.run view c with ⟨d', told, error | ⟨⟩⟩
  · rfl
  · simp only [failureNotes, List.append_nil]

theorem eq_fileLoadProgress {progress : List Progress} {n : Notification}
    (h : n ∈ progress.map fun p => .fileLoadProgress p.done p.total) :
    ∃ offset size, n = .fileLoadProgress offset size := by
  obtain ⟨p, -, rfl⟩ := List.mem_map.mp h
  exact ⟨p.done, p.total, rfl⟩

theorem Dispatcher.run_loadFile (source : S) :
    d.run view (.loadFile source)
      = ({ d with log := logOf d.settings view source },
        (indexLines (view source) d.settings).1.map
            (fun p => .fileLoadProgress p.done p.total)
          ++ loadedNotes (indexLines (view source) d.settings).2,
        endedWith (indexLines (view source) d.settings).2) := by
  rw [run, loadFile, logOf]
  rcases indexLines (view source) d.settings with ⟨progress, error | lines⟩
  · simp only [loadedNotes, List.append_nil]
    rfl
  · rfl

variable {d}

theorem Dispatcher.run_of_none (hlog : d.log = none) {c : Command S}
    (hc : c.isQuery) : d.run view c = (d, [], .error .noFileLoaded) := by
  have hloaded : d.loaded = .error .noFileLoaded := by rw [loaded, hlog]
  cases c with
  | loadFile source => exact absurd hc (by simp [Command.isQuery])
  | forecastInfo line => rw [run, forecastInfo, hloaded]
  | interestingTrips => rw [run, Dispatcher.interestingTrips, hloaded]

variable {log : LoadedLog S} (hlog : d.log = some log)

include hlog

theorem Dispatcher.run_forecastInfo (line : Line) :
    d.run view (.forecastInfo line)
      = (d,
        (readLine (view log.source) d.settings line).1.map
          (Notification.ofReport line),
        endedWith (readLine (view log.source) d.settings line).2) := by
  have hloaded : d.loaded = .ok log := by rw [loaded, hlog]
  rw [run, forecastInfo, hloaded]
  dsimp only
  rcases readLine (view log.source) d.settings line with
    ⟨reports, error | ⟨⟩⟩ <;>
  rfl

theorem Dispatcher.run_interestingTrips :
    d.run view .interestingTrips
      = (d,
        (Ridership.interestingTrips (view log.source) d.settings
            log.lines).1.map
            (fun p => .interestingTripsProgress p.done p.total)
          ++ rankedNotes (Ridership.interestingTrips (view log.source)
            d.settings log.lines).2,
        endedWith (Ridership.interestingTrips (view log.source) d.settings
          log.lines).2) := by
  have hloaded : d.loaded = .ok log := by rw [loaded, hlog]
  rw [run, interestingTrips, hloaded]
  dsimp only
  rcases Ridership.interestingTrips (view log.source) d.settings log.lines
    with ⟨progress, error | trips⟩
  · simp only [rankedNotes, List.append_nil]
    rfl
  · simp only [rankedNotes, List.append_assoc]
    rfl

omit hlog

/-- A query leaves everything as it is, whether it fails or not. -/
theorem Dispatcher.handle_query {c : Command S} (hc : c.isQuery) :
    (d.handle view c).1 = d := by
  rw [handle_eq]
  cases hlog : d.log with
  | none => rw [run_of_none view hlog hc]
  | some log =>
      cases c with
      | loadFile source => exact absurd hc (by simp [Command.isQuery])
      | forecastInfo line => rw [run_forecastInfo view hlog]
      | interestingTrips => rw [run_interestingTrips view hlog]

end

end Ridership.Session

import Ridership.Proofs.CommandRuns
import Ridership.Proofs.LineReports
import Ridership.Proofs.RankedTrips

/-!
# The order in which a command tells

Whoever runs a command follows it by what it tells, and must know when it is
over. So every command has one notification that ends it, which comes last and
says by its kind whether the command has failed; before it stands only what
belongs to the command.

The two ends are told in different places. A failure is told behind whatever the
command did, and a success by the command itself, for a line even by the reading
of the line. That they never meet comes down to the answer: each command tells
its success exactly when it has an answer (`loadedNotes`, `rankedNotes` and
`closing`), and a failure is told exactly when there is none.
-/

namespace Ridership.Session

open Forecast (ForecastError Report closing readLine)
open Log (Line Progress indexLines)
open Storage (ByteSource)

/-- Whether a notification ends a command. -/
def Notification.isLast : Notification → Bool
  | .fileLoaded _ | .forecastInfoDone _ | .interestingTripsDone
  | .commandFailed _ _ => true
  | .fileLoadProgress _ _ | .forecastInfoProgress _ _ _ | .tripForecast _ _
  | .tripRejected _ _ _ | .interestingTripsProgress _ _ => false

/-- Whether a notification tells how the reading of a line goes on. -/
def Notification.OnLine (line : Line) (n : Notification) : Prop :=
  (∃ progress size, n = .forecastInfoProgress line progress size) ∨
  (∃ forecast, n = .tripForecast line forecast) ∨
  ∃ trip error, n = .tripRejected line trip error

section

variable {S : Type}

/-- What a command may tell before its end. No trip of a ranking is told
before the pass has come through. -/
def Command.MayTell (c : Command S) (ended : Except CommandError Unit)
    (interim : List Notification) : Prop :=
  match c with
  | .loadFile _ =>
      ∀ n ∈ interim, ∃ offset size, n = .fileLoadProgress offset size
  | .forecastInfo line => ∀ n ∈ interim, n.OnLine line
  | .interestingTrips => ∃ (progress : List Progress) (trips : List RankedTrip),
      interim = progress.map (fun p => .interestingTripsProgress p.done p.total)
        ++ trips.map (fun t => .tripForecast t.line t.forecast) ∧
      (trips.map fun t => t.forecast.maxSpread).Pairwise (· ≥ ·) ∧
      (ended ≠ .ok () → trips = [])

/-- The notification that ends a command. -/
def Command.EndsWith (c : Command S) (last : Notification) :
    Except CommandError Unit → Prop
  | .error error => last = .commandFailed c.name error.message
  | .ok () => match c with
    | .loadFile _ => ∃ lines, last = .fileLoaded lines
    | .forecastInfo line => last = .forecastInfoDone line
    | .interestingTrips => last = .interestingTripsDone

/-! ## The end and what comes before it -/

section

variable {c : Command S} {ended : Except CommandError Unit}
  {interim : List Notification} {last : Notification}

theorem Command.MayTell.isLast (h : c.MayTell ended interim) :
    ∀ n ∈ interim, n.isLast = false := by
  intro n hn
  cases c with
  | loadFile source =>
      obtain ⟨offset, size, rfl⟩ := h n hn
      rfl
  | forecastInfo line =>
      obtain ⟨progress, size, rfl⟩ | ⟨forecast, rfl⟩ | ⟨trip, error, rfl⟩ :=
        h n hn
      · rfl
      · rfl
      · rfl
  | interestingTrips =>
      obtain ⟨progress, trips, rfl, -, -⟩ := h
      rcases List.mem_append.mp hn with hn | hn
      · obtain ⟨p, -, rfl⟩ := List.mem_map.mp hn
        rfl
      · obtain ⟨t, -, rfl⟩ := List.mem_map.mp hn
        rfl

theorem Command.EndsWith.isLast (h : c.EndsWith last ended) :
    last.isLast = true := by
  match ended, c with
  | .error error, _ =>
      rw [EndsWith] at h
      rw [h]
      rfl
  | .ok (), .loadFile _ =>
      obtain ⟨lines, rfl⟩ := h
      rfl
  | .ok (), .forecastInfo _ | .ok (), .interestingTrips =>
      obtain rfl := h
      rfl

/-- The end of a command is told as a failure if and only if it is one. -/
theorem Command.EndsWith.eq_commandFailed (h : c.EndsWith last ended)
    (name message : String) :
    last = .commandFailed name message ↔
      ∃ error, ended = .error error ∧ name = c.name ∧
        message = error.message := by
  match ended, c with
  | .error error, _ =>
      rw [EndsWith] at h
      rw [h]
      constructor
      · rintro ⟨⟩
        exact ⟨error, rfl, rfl, rfl⟩
      · rintro ⟨_, ⟨⟩, rfl, rfl⟩
        rfl
  | .ok (), .loadFile _ =>
      obtain ⟨lines, rfl⟩ := h
      simp
  | .ok (), .forecastInfo _ | .ok (), .interestingTrips =>
      obtain rfl := h
      simp

end

/-! ## Each command -/

theorem Notification.ofReport_onLine (line : Line) {report : Report}
    (h : report.Interim) : (ofReport line report).OnLine line := by
  match report with
  | .outcome (.forecast f) => exact .inr (.inl ⟨f, rfl⟩)
  | .outcome (.rejected trip cause) =>
      exact .inr (.inr ⟨trip, cause.message, rfl⟩)
  | .progress consumed size => exact .inl ⟨consumed, size, rfl⟩
  | .done => exact h.elim

/-- A run that tells by the rules, up to its end. -/
def Command.TellsInOrder (c : Command S) (run : Run S) : Prop :=
  ∃ interim last, run.2.1 = interim ++ [last] ∧ c.MayTell run.2.2 interim ∧
    c.EndsWith last run.2.2

section

variable (view : S → ByteSource) {d : Dispatcher S}

theorem Dispatcher.loadFile_tells (source : S) :
    (Command.loadFile source).TellsInOrder
      (d.handle view (.loadFile source)) := by
  rw [handle_eq, run_loadFile]
  rcases indexLines (view source) d.settings with ⟨progress, answer⟩
  have hprogress : ∀ n ∈ progress.map
      (fun p => Notification.fileLoadProgress p.done p.total),
      ∃ offset size, n = .fileLoadProgress offset size :=
    fun n => eq_fileLoadProgress
  cases answer with
  | error error =>
      refine ⟨_, _, ?_, hprogress, rfl⟩
      simp [loadedNotes, failureNotes]
  | ok lines =>
      refine ⟨_, _, ?_, hprogress, ⟨lines, rfl⟩⟩
      simp [loadedNotes, failureNotes]

theorem Dispatcher.query_tells_of_none (hlog : d.log = none) {c : Command S}
    (hc : c.isQuery) :
    c.TellsInOrder (d.handle view c) := by
  rw [handle_eq, run_of_none view hlog hc]
  refine ⟨[], _, rfl, ?_, rfl⟩
  cases c with
  | loadFile source => exact absurd hc (by simp [Command.isQuery])
  | forecastInfo line => exact fun n hn => absurd hn List.not_mem_nil
  | interestingTrips => exact ⟨[], [], rfl, .nil, fun _ => rfl⟩

theorem Dispatcher.forecastInfo_tells (line : Line) :
    (Command.forecastInfo line : Command S).TellsInOrder
      (d.handle view (.forecastInfo line)) := by
  cases hlog : d.log with
  | none => exact query_tells_of_none view hlog rfl
  | some log =>
      rw [handle_eq, run_forecastInfo view hlog]
      obtain ⟨⟨told, htold, hinterim⟩, -⟩ :=
        Forecast.readLine_interim (view log.source) d.settings line
      rcases hread : readLine (view log.source) d.settings line with
        ⟨reports, answer⟩
      obtain rfl : reports = told ++ closing answer := by rwa [hread] at htold
      have honLine : ∀ n ∈ told.map (Notification.ofReport line),
          n.OnLine line := by
        intro n hn
        obtain ⟨report, hreport, rfl⟩ := List.mem_map.mp hn
        exact Notification.ofReport_onLine line (hinterim report hreport)
      cases answer with
      | error error =>
          refine ⟨_, _, ?_, honLine, rfl⟩
          simp [closing, failureNotes]
      | ok _ =>
          refine ⟨_, _, ?_, honLine, rfl⟩
          simp [closing, failureNotes, Notification.ofReport]

theorem Dispatcher.interestingTrips_tells :
    (Command.interestingTrips : Command S).TellsInOrder
      (d.handle view .interestingTrips) := by
  cases hlog : d.log with
  | none => exact query_tells_of_none view hlog rfl
  | some log =>
      rw [handle_eq, run_interestingTrips view hlog]
      rcases hpass : Ridership.interestingTrips (view log.source) d.settings
        log.lines with ⟨progress, error | trips⟩
      · refine ⟨_, _, ?_, ⟨progress, [], rfl, .nil, fun _ => rfl⟩, rfl⟩
        simp [rankedNotes, failureNotes]
      · have hdescending : RankedTrip.Descending trips :=
          interestingTrips_descending (congrArg Prod.snd hpass)
        refine ⟨_, _, ?_, ⟨progress, trips, rfl,
          List.pairwise_map.mpr hdescending, ?_⟩, rfl⟩
        · simp [rankedNotes, failureNotes]
        · intro hfailed
          exact absurd rfl hfailed

end

end

/-- The notifications of a command, in whatever state it is run and whatever
its source does, are those that may come before its end and then one that ends
it. A failure is told exactly when the command has failed, with the name of the
command and the words for the error. -/
theorem Dispatcher.handle_tells {S : Type} (view : S → ByteSource)
    (d : Dispatcher S) (c : Command S) :
    ∃ interim last, (d.handle view c).2.1 = interim ++ [last] ∧
      c.MayTell (d.handle view c).2.2 interim ∧
      c.EndsWith last (d.handle view c).2.2 ∧
      (d.handle view c).2.1.filter Notification.isLast = [last] ∧
      ∀ name message, .commandFailed name message ∈ (d.handle view c).2.1 ↔
        ∃ error, (d.handle view c).2.2 = .error error ∧ name = c.name ∧
          message = error.message := by
  have htells : c.TellsInOrder (d.handle view c) := by
    cases c with
    | loadFile source => exact loadFile_tells view source
    | forecastInfo line => exact forecastInfo_tells view line
    | interestingTrips => exact interestingTrips_tells view
  obtain ⟨interim, last, htold, hinterim, hlast⟩ := htells
  refine ⟨interim, last, htold, hinterim, hlast, ?_, ?_⟩
  · have hnone : interim.filter Notification.isLast = [] := by
      refine List.filter_eq_nil_iff.mpr fun n hn => ?_
      rw [hinterim.isLast n hn]
      exact Bool.false_ne_true
    rw [htold, List.filter_append, hnone, List.filter_cons_of_pos hlast.isLast]
    rfl
  · intro name message
    rw [← hlast.eq_commandFailed, htold, List.mem_append,
      List.mem_singleton]
    constructor
    · rintro (hmem | heq)
      · exact absurd (hinterim.isLast _ hmem) (by simp [Notification.isLast])
      · exact heq.symm
    · intro heq
      exact .inr heq.symm

end Ridership.Session

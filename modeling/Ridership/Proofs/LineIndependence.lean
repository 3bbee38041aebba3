import Ridership.Proofs.LineIndex
import Ridership.Proofs.LineReports
import Ridership.Proofs.RankedTrips
import Ridership.Proofs.SessionHistory

/-!
# Every line for itself

On a line, what is known of stations and services is handed on from trip to
trip. From line to line nothing is: a line reads as its own bytes read, with
nothing before them and nothing behind, and neither the rest of the log nor what
was asked before has a part in it.

The reason is that the reading of a line starts anew each time and sees the log
only through one slice (`readLine_of_slice`). A request for a line and the pass
over all lines both come down to this reading. So a ranked trip is one that a
request for its line would tell, but for the time: the pass puts in the time of
the line, and a reading knows none.
-/

namespace Ridership.Session

open Forecast (Report TripForecast readLine)
open Log (Line indexLines segments)
open Storage (ByteSource LogSource)

/-! ## The bytes of a line alone -/

/-- The bytes of a line in a log. -/
def bodyOf (content : List UInt8) (line : Line) : List UInt8 :=
  (content.drop line.start).take line.bodyLength

section

variable {source : ByteSource} {content : List UInt8} {line : Line}

theorem length_bodyOf (hstop : line.stop ≤ content.length) :
    (bodyOf content line).length = line.bodyLength := by
  rw [bodyOf, List.length_take, List.length_drop, Line.bodyLength]
  omega

theorem readLine_alone (h : source.Holds content)
    (hle : line.start ≤ line.stop) (hstop : line.stop ≤ content.length)
    (settings : Settings) :
    readLine source settings line
      = readLine (.memory (bodyOf content line)) settings
          (.between 0 line.bodyLength) := by
  have hwhole := Forecast.memory_slice_whole (bodyOf content line)
  rw [length_bodyOf hstop] at hwhole
  have hslice := h.slice_eq line.start line.stop hle hstop
  refine readLine_of_slice ?_ ?_
  · rfl
  · exact hslice.trans hwhole.symm

theorem readable_of_holds (h : source.Holds content)
    (hle : line.start ≤ line.stop) (hstop : line.stop ≤ content.length)
    (settings : Settings) : Readable source settings line := by
  intro cause hread
  obtain ⟨-, herror⟩ := Forecast.readLine_interim source settings line
  rcases herror _ (h.slice_eq line.start line.stop hle hstop) _ hread with
    ⟨place, message, hmalformed⟩ | ⟨f, hf, -⟩
  · exact absurd hmalformed (by simp)
  · exact absurd hf (by simp)

end

/-! ## What is told of a line -/

section

variable {S : Type} {view : S → ByteSource} {d : Dispatcher S}
  {log : LoadedLog S} (hlog : d.log = some log)

include hlog

theorem Dispatcher.getElem?_of_line {i : Nat} {line : Line}
    (h : d.line i = .ok line) : log.lines[i]? = some line := by
  rw [line_of_some hlog] at h
  split at h
  · next hget =>
      cases h
      exact hget
  · cases h

/-- A forecast that a line reports is told before any failure. -/
theorem Dispatcher.forecast_told {line : Line} {f : TripForecast}
    (h : .outcome (.forecast f)
      ∈ (readLine (view log.source) d.settings line).1) :
    ∃ earlier later, (d.handle view (.forecastInfo line)).2.1
        = earlier ++ .tripForecast line f :: later ∧
      ∀ name message, .commandFailed name message ∉ earlier := by
  obtain ⟨before, after, hreports⟩ := List.append_of_mem h
  refine ⟨before.map (Notification.ofReport line),
    after.map (Notification.ofReport line)
      ++ failureNotes (.forecastInfo line : Command S)
        (endedWith (readLine (view log.source) d.settings line).2), ?_, ?_⟩
  · rw [handle_eq, run_forecastInfo view hlog, hreports, List.map_append,
      List.map_cons, List.append_assoc]
    rfl
  · intro name message hmem
    obtain ⟨report, -, hreport⟩ := List.mem_map.mp hmem
    match report with
    | .outcome (.forecast _) | .outcome (.rejected _ _) | .progress _ _
    | .done => exact absurd hreport (by simp [Notification.ofReport])

/-- A ranked trip is one that its line reports, with the time of the line. -/
theorem Dispatcher.ranked_reported {line : Line} {f : TripForecast}
    (h : .tripForecast line f ∈ (d.handle view .interestingTrips).2.1) :
    line ∈ log.lines ∧
    ∃ g, .outcome (.forecast g)
        ∈ (readLine (view log.source) d.settings line).1 ∧
      f = { g with systemTime := line.systemTime } := by
  rw [handle_eq, run_interestingTrips view hlog] at h
  rcases hpass : Ridership.interestingTrips (view log.source) d.settings
    log.lines with ⟨progress, error | trips⟩
  · rw [hpass] at h
    exact absurd h (by simp [rankedNotes, failureNotes])
  · rw [hpass] at h
    obtain ⟨t, ht, rfl, rfl⟩ : ∃ t ∈ trips, t.line = line ∧ t.forecast = f :=
      by simpa [rankedNotes, failureNotes] using h
    exact interestingTrips_reported (congrArg Prod.snd hpass) ht

theorem Dispatcher.interestingTrips_ok
    (h : ∀ line ∈ log.lines, Readable (view log.source) d.settings line) :
    (d.handle view .interestingTrips).2.2 = .ok () := by
  rw [handle_eq, run_interestingTrips view hlog, interestingTrips_readable h]
  rfl

end

/-- In a log that can be read, a request for a line tells what the bytes of
the line tell alone, whatever else the log holds and whatever was asked
before. The pass over the lines comes through, and every trip that it tells is
one that a request for its line tells before it could fail, with the line's
time put in. -/
theorem Dispatcher.forecastInfo_alone {S : Type} {settings : Settings}
    {history before later : List (Turn S)} {loading view : S → ByteSource}
    {source : S} {content : List UInt8}
    (hlast : LastLoad history before loading source later)
    (hload : (loading source).Holds content)
    (hview : (view source).Holds content) :
    let d := (Dispatcher.start settings).after history
    ∃ lines : List Line, d.log = some ⟨source, lines⟩ ∧
      lines.length = (segments content).length ∧
      (∀ (i : Nat) (line : Line), d.line i = .ok line →
        let (reports, answer) := readLine (.memory (bodyOf content line))
          settings (.between 0 line.bodyLength)
        (d.handle view (.forecastInfo line)).2
          = (reports.map (Notification.ofReport line)
              ++ failureNotes (.forecastInfo line : Command S)
                (endedWith answer),
            endedWith answer)) ∧
      (d.handle view .interestingTrips).2.2 = .ok () ∧
      ∀ line f, .tripForecast line f ∈ (d.handle view .interestingTrips).2.1 →
        line ∈ lines ∧ f.systemTime = line.systemTime ∧
        ∃ earlier later, (d.handle view (.forecastInfo line)).2.1
            = earlier ++ .tripForecast line { f with systemTime := none }
              :: later ∧
          ∀ name message, .commandFailed name message ∉ earlier := by
  intro d
  have hsettings : d.settings = settings := after_settings history
  obtain ⟨lines, hlines, hcount⟩ : ∃ lines : List Line,
      (indexLines (loading source) settings).2 = .ok lines ∧
      lines.length = (segments content).length := by
    refine ⟨_, Log.indexLines_of_holds hload settings, ?_⟩
    rw [List.length_map, Log.RawLine.length_ofSegments]
  have hlog : d.log = some ⟨source, lines⟩ :=
    (after_lastLoad hlast).trans (logOf_eq_some.mpr ⟨rfl, hlines⟩)
  -- The load has found the places; the bytes are those of the request.
  have hplace : ∀ line ∈ lines,
      line.start ≤ line.stop ∧ line.stop ≤ content.length := by
    intro line hline
    obtain ⟨i, hi⟩ := List.mem_iff_getElem?.mp hline
    obtain ⟨_, -, hle, hstop, -⟩ := Log.slice_of_indexLines hload hlines hi
    exact ⟨hle, hstop⟩
  refine ⟨lines, hlog, hcount, ?_, ?_, ?_⟩
  · intro i line hi
    obtain ⟨hle, hstop⟩ :=
      hplace line (List.mem_of_getElem? (getElem?_of_line hlog hi))
    dsimp only
    rw [handle_eq, run_forecastInfo view hlog, hsettings,
      readLine_alone hview hle hstop]
  · refine interestingTrips_ok hlog fun line hline => ?_
    obtain ⟨hle, hstop⟩ := hplace line hline
    exact readable_of_holds hview hle hstop d.settings
  · intro line f hf
    obtain ⟨hline, g, hg, htimed⟩ := ranked_reported hlog hf
    have huntimed : { f with systemTime := none } = g := by
      rw [htimed, ← Forecast.readLine_untimed hg]
    refine ⟨hline, ?_, ?_⟩
    · rw [htimed]
    · rw [huntimed]
      exact forecast_told hlog hg

/-- A line that does not read, and one with a trip. -/
def brokenThenTrip : List UInt8 :=
  "x\n\x7b\"a\":\x7b\"b\":[\x7b\"trip\":\x7b\x7d,\"edges\":[]\x7d]\x7d\x7d".toUTF8.toList

/-- The line that does not read leaves the other as it is. -/
theorem Dispatcher.forecastInfo_alone_of_broken :
    let view := LogSource.view fun _ => .error .notFound
    let source := LogSource.memory brokenThenTrip
    let line := Line.between 2 38
    let history : List (Turn LogSource) :=
      [⟨view, .loadFile brokenLines⟩, ⟨view, .loadFile source⟩,
        ⟨view, .interestingTrips⟩]
    let d := (Dispatcher.start .default).after history
    LastLoad history [⟨view, .loadFile brokenLines⟩] view source
      [⟨view, .interestingTrips⟩] ∧
    (view source).Holds brokenThenTrip ∧
    d.line 1 = .ok line ∧
    (d.handle view (.forecastInfo line)).2.1.map Notification.op
      = ["tripForecast", "getForecastInfoDone"] := by
  intro view source line history d
  have hlast : LastLoad history [⟨view, .loadFile brokenLines⟩] view source
      [⟨view, .interestingTrips⟩] := ⟨rfl, by decide⟩
  have hsource : (view source).Holds brokenThenTrip :=
    ByteSource.memory_holds brokenThenTrip
  have hfound : (d.line 1).toOption = some line := by decide +kernel
  have hline : d.line 1 = .ok line := by
    match h : d.line 1 with
    | .ok found =>
        rw [h] at hfound
        exact congrArg _ (Option.some.inj hfound)
    | .error error =>
        rw [h] at hfound
        exact absurd hfound (by simp [Except.toOption])
  obtain ⟨lines, -, -, halone, -⟩ := forecastInfo_alone hlast hsource hsource
  have htold := halone 1 line hline
  refine ⟨hlast, hsource, hline, ?_⟩
  rw [htold]
  decide +kernel

end Ridership.Session

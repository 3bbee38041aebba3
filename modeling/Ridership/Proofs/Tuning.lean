import Mathlib.Data.List.Forall2
import Ridership.Proofs.LineIndex
import Ridership.Proofs.LineReference
import Ridership.Proofs.RankingPass
import Ridership.Proofs.SessionHistory

/-!
# The knobs only decide how often progress is told

Three settings say how the bytes are asked for and how often somebody hears of
it: the size of a read, and the bytes between two reports through a file and
through a line. They move every boundary between two reads, and with it the
step of the loop in which an error comes up. What comes out does not move.

There is one exception, and it is the code's own doing: a sub-tree that does not
read is blamed on the read in which it was completed. `placeless` takes this
place out of an error and nothing else; a text that is refused keeps its place
(`eq_ofScan_of_placeless`), and so the comparison is exact there.

Two runs are compared command by command. A load reads its settings through the
bytes looked at for a time alone, a line through nothing, and a pass over the
lines through the size of the ranking (`indexLines_congr`, `readLine_tuned`,
`interestingTrips_congr`). So whatever two dispatchers keep stays the same, and
their answers go on being alike.
-/

namespace Ridership

open Forecast (ForecastError Report closing readLine withoutProgress)
open Json (ScanFault)
open Log (Line Progress indexLines)
open Storage (ByteSource)

/-! ## What is left of an error without its place -/

/-- Only a refused text is left as a refused text. -/
theorem Forecast.ForecastError.eq_ofScan_of_placeless {error : ForecastError}
    {fault : ScanFault} (h : error.placeless = .ofScan fault) :
    error = .ofScan fault := by
  cases error with
  | invalidCdf | streamRead => cases h
  | malformedRecord place message =>
      rw [placeless] at h
      split at h
      · next hblames =>
          -- The message would be about a sub-tree and about the text.
          have hmessage : message = fault.error.message := by
            injection h
          rw [hmessage] at hblames
          exact absurd hblames (Forecast.not_blamesSubtree_message fault.error)
      · exact h

theorem Forecast.ForecastError.streamRead_of_placeless
    {answer answer' : Except ForecastError Unit} {cause : Storage.Fault}
    (h : answer'.mapError placeless = answer.mapError placeless)
    (hanswer : answer = .error (.streamRead cause)) :
    answer' = .error (.streamRead cause) := by
  rw [hanswer] at h
  cases answer' with
  | ok => cases h
  | error error =>
      have hplace : error.placeless = .streamRead cause := Except.error.inj h
      cases error with
      | streamRead cause' => exact h
      | invalidCdf => cases hplace
      | malformedRecord place message =>
          rw [placeless] at hplace
          split at hplace <;> cases hplace

/-! ## What the settings are read for -/

section

variable {source : ByteSource} {settings settings' : Settings}

/-- A line reads as its bytes read, whatever the settings. -/
theorem readLine_tuned (source : ByteSource) (settings settings' : Settings)
    (line : Line) :
    (readLine source settings' line).2.mapError ForecastError.placeless
        = (readLine source settings line).2.mapError
            ForecastError.placeless ∧
    withoutProgress (readLine source settings' line).1
        = withoutProgress (readLine source settings line).1 := by
  cases hslice : source.slice line.start line.stop with
  | error cause =>
      rw [readLine, readLine, hslice]
      exact ⟨rfl, rfl⟩
  | ok delivery =>
      obtain ⟨hend, hreports⟩ := Forecast.readLine_eq_takeBody hslice settings
      obtain ⟨hend', hreports'⟩ :=
        Forecast.readLine_eq_takeBody hslice settings'
      exact ⟨hend'.trans hend.symm, hreports'.trans hreports.symm⟩

theorem indexLines_congr (hlead : settings'.leadLimit = settings.leadLimit) :
    (indexLines source settings').2 = (indexLines source settings).2 := by
  cases hstream : source.stream with
  | error cause =>
      simp only [indexLines, hstream]
  | ok delivery =>
      rw [Log.indexLines_of_stream hstream, Log.indexLines_of_stream hstream,
        hlead]

theorem forecastsOf_withoutProgress (reports : List Report) :
    forecastsOf (withoutProgress reports) = forecastsOf reports :=
  Forecast.filterMap_withoutProgress (fun _ _ => rfl) reports

theorem reportedOffers_tuned (source : ByteSource)
    (settings settings' : Settings) (lines : List Line) :
    reportedOffers source settings' lines
      = reportedOffers source settings lines := by
  rw [reportedOffers, reportedOffers]
  congr 1
  funext line
  obtain ⟨-, hreports⟩ := readLine_tuned source settings settings' line
  rw [← forecastsOf_withoutProgress, hreports, forecastsOf_withoutProgress]

/-- A pass over the lines tells and finds the same, for it stops only at bytes
that cannot be had. -/
theorem rankLines_tuned (total : Nat) (lines : List Line) :
    ∀ (ranking : Ranking) (progress : List Progress) (index : Nat),
      rankLines source settings' total ranking progress index lines
        = rankLines source settings total ranking progress index lines := by
  induction lines with
  | nil =>
      intro ranking progress index
      rfl
  | cons line rest ih =>
      intro ranking progress index
      obtain ⟨hend, -⟩ := readLine_tuned source settings settings' line
      -- How a line ended is asked for one thing: could its bytes be had?
      by_cases h : Readable source settings line
      · have h' : Readable source settings' line := by
          intro cause hcause
          exact h cause
            (ForecastError.streamRead_of_placeless hend.symm hcause)
        rw [rankLines_readable h, rankLines_readable h',
          reportedOffers_tuned source settings settings']
        exact ih _ _ _
      · obtain ⟨cause, hcause⟩ := not_forall_not.mp h
        have hcause' := ForecastError.streamRead_of_placeless hend hcause
        rw [rankLines_unreadable hcause, rankLines_unreadable hcause']

theorem interestingTrips_congr
    (hsize : settings'.rankingSize = settings.rankingSize)
    (lines : List Line) :
    interestingTrips source settings' lines
      = interestingTrips source settings lines := by
  rw [interestingTrips, interestingTrips, hsize]
  exact rankLines_tuned lines.length lines _ _ _

end

end Ridership

namespace Ridership.Session

open Forecast (ForecastError Report readLine withoutProgress)
open Json (ScanFault)
open Log (Line indexLines)
open Storage (ByteSource)

/-! ## Answers -/

/-- Whether a notification only tells how many bytes have been read. -/
def Notification.countsBytes : Notification → Bool
  | .fileLoadProgress _ _ | .forecastInfoProgress _ _ _ => true
  | _ => false

/-- What is told besides the bytes that have been read. -/
def withoutCounts (told : List Notification) : List Notification :=
  told.filter fun n => !n.countsBytes

/-- An error without the place of a sub-tree that does not read. -/
def CommandError.placeless : CommandError → CommandError
  | .forecast error => .forecast error.placeless
  | error => error

/-- A command, what it told and how it ended. -/
structure Answer (S : Type) where
  command : Command S
  told : List Notification
  ended : Except CommandError Unit

variable {S : Type}

/-- Two answers to a command that differ in the bytes they count, and in where
they place a sub-tree that does not read. A text that is refused is refused at
the same place. -/
structure Answer.Alike (a a' : Answer S) : Prop where
  command_eq : a'.command = a.command
  ended_eq : a'.ended.mapError CommandError.placeless
    = a.ended.mapError CommandError.placeless
  refused_eq : ∀ fault : ScanFault,
    a.ended = .error (.forecast (.ofScan fault)) → a'.ended = a.ended
  told_eq : ∃ told,
    withoutCounts a.told = told ++ failureNotes a.command a.ended ∧
    withoutCounts a'.told = told ++ failureNotes a'.command a'.ended

/-- What a dispatcher answers to a turn. -/
def Dispatcher.answer (d : Dispatcher S) (turn : Turn S) : Answer S :=
  ⟨turn.command, (d.handle turn.view turn.command).2.1,
    (d.handle turn.view turn.command).2.2⟩

/-- What a dispatcher answers to some turns, one after another. -/
def Dispatcher.answers (d : Dispatcher S) : List (Turn S) → List (Answer S)
  | [] => []
  | turn :: history =>
      d.answer turn
        :: (d.handle turn.view turn.command).1.answers history

theorem CommandError.refused_of_placeless
    {ended ended' : Except CommandError Unit} {fault : ScanFault}
    (h : ended'.mapError placeless = ended.mapError placeless)
    (hended : ended = .error (.forecast (.ofScan fault))) :
    ended' = ended := by
  rw [hended] at h ⊢
  cases ended' with
  | ok => cases h
  | error error =>
      have hplace : error.placeless
          = .forecast (ForecastError.placeless (.ofScan fault)) :=
        Except.error.inj h
      rw [ForecastError.placeless_ofScan] at hplace
      cases error with
      | noFileLoaded | lineOutOfRange => cases hplace
      | forecast error =>
          have hscan : error.placeless = .ofScan fault := by
            injection hplace
          rw [ForecastError.eq_ofScan_of_placeless hscan]

/-! ## One command -/

section

variable (view : S → ByteSource) {d d' : Dispatcher S}

/-- A command's answer is alike to another if what is told before a failure is
the same, but for the bytes. -/
theorem Dispatcher.answer_alike {turn : Turn S}
    (hended : (d'.run turn.view turn.command).2.2.mapError
        CommandError.placeless
      = (d.run turn.view turn.command).2.2.mapError CommandError.placeless)
    (htold : withoutCounts (d'.run turn.view turn.command).2.1
      = withoutCounts (d.run turn.view turn.command).2.1) :
    (d.answer turn).Alike (d'.answer turn) := by
  have hnotes (c : Command S) (ended : Except CommandError Unit) :
      withoutCounts (failureNotes c ended) = failureNotes c ended := by
    rcases ended with _ | _ <;> rfl
  have hsplit (e : Dispatcher S) : withoutCounts (e.answer turn).told
      = withoutCounts (e.run turn.view turn.command).2.1
        ++ failureNotes (e.answer turn).command (e.answer turn).ended := by
    rw [answer, handle_eq]
    dsimp only
    rw [withoutCounts, List.filter_append, ← withoutCounts, ← withoutCounts,
      hnotes]
  have hends (e : Dispatcher S) :
      (e.answer turn).ended = (e.run turn.view turn.command).2.2 := by
    rw [answer, handle_eq]
  have hends_eq : (d'.answer turn).ended.mapError CommandError.placeless
      = (d.answer turn).ended.mapError CommandError.placeless := by
    rw [hends, hends]
    exact hended
  refine ⟨rfl, hends_eq, ?_, _, hsplit d, ?_⟩
  · intro fault hfault
    exact CommandError.refused_of_placeless hends_eq hfault
  · rw [hsplit d', htold]

/-- What two dispatchers have in common that differ in the knobs alone. -/
structure Dispatcher.Tuned (d d' : Dispatcher S) : Prop where
  log_eq : d'.log = d.log
  leadLimit_eq : d'.settings.leadLimit = d.settings.leadLimit
  rankingSize_eq : d'.settings.rankingSize = d.settings.rankingSize

theorem withoutCounts_ofReport (line : Line) (reports : List Report) :
    withoutCounts (reports.map (Notification.ofReport line))
      = (withoutProgress reports).map (Notification.ofReport line) := by
  induction reports with
  | nil => rfl
  | cons report reports ih =>
      match report with
      | .progress _ _ => exact ih
      | .outcome (.forecast _) | .outcome (.rejected _ _) | .done =>
          exact congrArg (_ :: ·) ih

theorem withoutCounts_loading (progress : List Log.Progress)
    (answer : Except ForecastError (List Line)) :
    withoutCounts (progress.map (fun p => .fileLoadProgress p.done p.total)
        ++ loadedNotes answer)
      = loadedNotes answer := by
  induction progress with
  | nil => rcases answer with _ | _ <;> rfl
  | cons p progress ih => exact ih

theorem endedWith_placeless {answer answer' : Except ForecastError Unit}
    (h : answer'.mapError ForecastError.placeless
      = answer.mapError ForecastError.placeless) :
    (endedWith answer').mapError CommandError.placeless
      = (endedWith answer).mapError CommandError.placeless := by
  have hcommute (answer : Except ForecastError Unit) :
      (endedWith answer).mapError CommandError.placeless
        = endedWith (answer.mapError ForecastError.placeless) := by
    rcases answer with _ | _ <;> rfl
  rw [hcommute, hcommute, h]

/-! ## The commands

A load is the only command that changes what is kept. -/

namespace Dispatcher.Tuned

variable (h : d.Tuned d')

include h

theorem loadFile (source : S) :
    (d.handle view (.loadFile source)).1.Tuned
        (d'.handle view (.loadFile source)).1 ∧
      (d.answer ⟨view, .loadFile source⟩).Alike
        (d'.answer ⟨view, .loadFile source⟩) := by
  have hindex : (indexLines (view source) d'.settings).2
      = (indexLines (view source) d.settings).2 :=
    indexLines_congr h.leadLimit_eq
  constructor
  · rw [handle_eq, handle_eq, run_loadFile, run_loadFile]
    refine ⟨?_, h.leadLimit_eq, h.rankingSize_eq⟩
    show logOf d'.settings view source = logOf d.settings view source
    rw [logOf, logOf, hindex]
  · apply answer_alike
    · show (d'.run view (.loadFile source)).2.2.mapError _
        = (d.run view (.loadFile source)).2.2.mapError _
      rw [run_loadFile, run_loadFile, hindex]
    · show withoutCounts (d'.run view (.loadFile source)).2.1
        = withoutCounts (d.run view (.loadFile source)).2.1
      rw [run_loadFile, run_loadFile]
      show withoutCounts (_ ++ loadedNotes _)
        = withoutCounts (_ ++ loadedNotes _)
      rw [withoutCounts_loading, withoutCounts_loading, hindex]

theorem forecastInfo (line : Line) :
    (d.answer ⟨view, .forecastInfo line⟩).Alike
      (d'.answer ⟨view, .forecastInfo line⟩) := by
  have hrun : (d'.run view (.forecastInfo line)).2.2.mapError
        CommandError.placeless
      = (d.run view (.forecastInfo line)).2.2.mapError
        CommandError.placeless ∧
      withoutCounts (d'.run view (.forecastInfo line)).2.1
        = withoutCounts (d.run view (.forecastInfo line)).2.1 := by
    cases hkept : d.log with
    | none =>
        have hkept' := h.log_eq.trans hkept
        rw [run_of_none view hkept rfl, run_of_none view hkept' rfl]
        exact ⟨rfl, rfl⟩
    | some log =>
        have hkept' := h.log_eq.trans hkept
        obtain ⟨hend, hreports⟩ :=
          readLine_tuned (view log.source) d.settings d'.settings line
        rw [run_forecastInfo view hkept, run_forecastInfo view hkept']
        refine ⟨endedWith_placeless hend, ?_⟩
        show withoutCounts (List.map _ _) = withoutCounts (List.map _ _)
        rw [withoutCounts_ofReport, withoutCounts_ofReport, hreports]
  exact answer_alike hrun.1 hrun.2

theorem interestingTrips :
    (d.answer ⟨view, .interestingTrips⟩).Alike
      (d'.answer ⟨view, .interestingTrips⟩) := by
  have hrun : (d'.run view .interestingTrips).2
      = (d.run view .interestingTrips).2 := by
    cases hkept : d.log with
    | none =>
        have hkept' := h.log_eq.trans hkept
        rw [run_of_none view hkept rfl, run_of_none view hkept' rfl]
    | some log =>
        have hkept' := h.log_eq.trans hkept
        rw [run_interestingTrips view hkept,
          run_interestingTrips view hkept',
          interestingTrips_congr h.rankingSize_eq]
  exact answer_alike (congrArg (·.2.mapError CommandError.placeless) hrun)
    (congrArg (withoutCounts ·.1) hrun)

omit h

/-- Dispatchers that differ in the knobs answer a turn alike, and go on
differing in nothing else. -/
theorem handle (h : d.Tuned d') (turn : Turn S) :
    (d.handle turn.view turn.command).1.Tuned
        (d'.handle turn.view turn.command).1 ∧
      (d.answer turn).Alike (d'.answer turn) := by
  obtain ⟨view, command⟩ := turn
  cases command with
  | loadFile source => exact h.loadFile view source
  | forecastInfo line =>
      refine ⟨?_, h.forecastInfo view line⟩
      rw [handle_query view rfl, handle_query view rfl]
      exact h
  | interestingTrips =>
      refine ⟨?_, h.interestingTrips view⟩
      rw [handle_query view rfl, handle_query view rfl]
      exact h

end Dispatcher.Tuned

/-! ## Whole runs -/

theorem Dispatcher.Tuned.after (h : d.Tuned d') (history : List (Turn S)) :
    (d.after history).Tuned (d'.after history) ∧
      List.Forall₂ Answer.Alike (d.answers history) (d'.answers history) := by
  induction history generalizing d d' with
  | nil => exact ⟨h, .nil⟩
  | cons turn history ih =>
      obtain ⟨hstep, hanswer⟩ := h.handle turn
      obtain ⟨hrest, hanswers⟩ := ih hstep
      exact ⟨hrest, .cons hanswer hanswers⟩

end

/-- Whatever the size of a read and the steps between two reports, a run of
commands keeps the same lines in the end, and each of its commands ends in the
same way and tells the same in the same order, but for the bytes that it counts
and for the place that it gives a sub-tree that does not read. This holds of all
sources, whatever in them cannot be had. -/
theorem Dispatcher.answers_tuned (settings : Settings)
    (fileProgressStep lineProgressStep readSize : Nat)
    (history : List (Turn S)) :
    let tuned : Settings :=
      { settings with fileProgressStep, lineProgressStep, readSize }
    ((start tuned).after history).log = ((start settings).after history).log ∧
    List.Forall₂ Answer.Alike ((start settings).answers history)
      ((start tuned).answers history) := by
  intro tuned
  have hstart : (start settings : Dispatcher S).Tuned (start tuned) :=
    ⟨rfl, rfl, rfl⟩
  obtain ⟨hafter, hanswers⟩ := hstart.after history
  exact ⟨hafter.log_eq, hanswers⟩

end Ridership.Session

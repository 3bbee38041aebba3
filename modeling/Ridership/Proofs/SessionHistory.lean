import Ridership.Proofs.CommandRuns
import Ridership.Storage.FileSource

/-!
# What is kept after any commands

A dispatcher forgets a log in one place and takes one in one place, and both are
in the same command. So whatever else was asked, and in whatever order things
failed, what is kept in the end is what the last load left, and nothing if there
was no load. Two facts carry this: a load leaves the same whatever was kept
before it (`run_loadFile`), and a query leaves what it finds (`handle_query`).

Sources may change while a dispatcher is at work. Each command therefore comes
with a view of the sources of its own, and the lines that are kept are those of
the view of the load, while a query reads through the view it came with.
-/

namespace Ridership.Session

open Forecast (readLine)
open Log (Line indexLines)
open Storage (ByteSource LogSource)

section

variable {S : Type}

/-- A command with the sources as they are while it runs. -/
structure Turn (S : Type) where
  view : S → ByteSource
  command : Command S

/-- A dispatcher after some turns. -/
def Dispatcher.after (d : Dispatcher S) (history : List (Turn S)) :
    Dispatcher S :=
  history.foldl (fun d turn => (d.handle turn.view turn.command).1) d

/-- Whether all turns only ask about the log that is loaded. -/
def Quiet (history : List (Turn S)) : Prop :=
  ∀ turn ∈ history, turn.command.isQuery

instance (history : List (Turn S)) : Decidable (Quiet history) :=
  inferInstanceAs (Decidable (∀ turn ∈ history, turn.command.isQuery = true))

/-- A history whose last load is this one, after some turns and before
others. -/
structure LastLoad (history before : List (Turn S)) (view : S → ByteSource)
    (source : S) (later : List (Turn S)) : Prop where
  history_eq : history = before ++ ⟨view, .loadFile source⟩ :: later
  quiet : Quiet later

/-- A history has no load at all, or a last one. -/
theorem quiet_or_lastLoad (history : List (Turn S)) :
    Quiet history ∨
      ∃ before view source later, LastLoad history before view source later := by
  induction history with
  | nil => exact .inl fun turn h => absurd h List.not_mem_nil
  | cons first history ih =>
      rcases ih with hquiet | ⟨before, view, source, later, hlast⟩
      · -- The first turn counts only here, where no load stands behind it.
        obtain ⟨view, command⟩ := first
        match command with
        | .loadFile source =>
            exact .inr ⟨[], view, source, history, rfl, hquiet⟩
        | .forecastInfo _ | .interestingTrips =>
            refine .inl fun turn h => ?_
            rcases List.mem_cons.mp h with rfl | h
            · rfl
            · exact hquiet turn h
      · refine .inr ⟨first :: before, view, source, later, ?_, hlast.quiet⟩
        rw [hlast.history_eq, List.cons_append]

/-! ## The state after a history -/

variable {d : Dispatcher S}

theorem Dispatcher.after_append (history later : List (Turn S)) :
    d.after (history ++ later) = (d.after history).after later :=
  List.foldl_append

theorem Dispatcher.after_quiet {history : List (Turn S)}
    (h : Quiet history) : d.after history = d := by
  induction history with
  | nil => rfl
  | cons first history ih =>
      have hfirst := handle_query first.view (d := d)
        (h first List.mem_cons_self)
      show (d.handle first.view first.command).1.after history = d
      rw [hfirst]
      exact ih fun turn hmem => h turn (List.mem_cons_of_mem _ hmem)

theorem Dispatcher.handle_settings (view : S → ByteSource) (c : Command S) :
    (d.handle view c).1.settings = d.settings := by
  cases c with
  | loadFile source => rw [handle_eq, run_loadFile]
  | forecastInfo line => rw [handle_query view rfl]
  | interestingTrips => rw [handle_query view rfl]

theorem Dispatcher.after_settings (history : List (Turn S)) :
    (d.after history).settings = d.settings := by
  induction history generalizing d with
  | nil => rfl
  | cons first history ih => exact ih.trans (handle_settings _ _)

/-- What is kept is what the last load left. -/
theorem Dispatcher.after_lastLoad {history before later : List (Turn S)}
    {view : S → ByteSource} {source : S}
    (h : LastLoad history before view source later) :
    (d.after history).log = logOf d.settings view source := by
  rw [h.history_eq, after_append]
  show (((d.after before).handle view (.loadFile source)).1.after later).log
    = _
  rw [after_quiet h.quiet, handle_eq, run_loadFile, after_settings]

/-- Without a load nothing is kept, and otherwise what the last one left. -/
theorem Dispatcher.after_cases (settings : Settings)
    (history : List (Turn S)) :
    ((start settings).after history).log = none ∨
      ∃ before view source later, LastLoad history before view source later ∧
        ((start settings).after history).log
          = logOf settings view source := by
  rcases quiet_or_lastLoad history with
    hquiet | ⟨before, view, source, later, hlast⟩
  · rw [after_quiet hquiet]
    exact .inl rfl
  · exact .inr ⟨before, view, source, later, hlast, after_lastLoad hlast⟩

theorem logOf_eq_some {settings : Settings} {view : S → ByteSource}
    {source : S} {log : LoadedLog S} :
    logOf settings view source = some log ↔
      log.source = source ∧
        (indexLines (view source) settings).2 = .ok log.lines := by
  rw [logOf]
  cases (indexLines (view source) settings).2 with
  | error error => simp
  | ok lines =>
      constructor
      · rintro ⟨⟩
        exact ⟨rfl, rfl⟩
      · rintro ⟨rfl, ⟨⟩⟩
        rfl

/-- A load leaves a log if and only if it succeeds. -/
theorem Dispatcher.logOf_isSome (view : S → ByteSource) (source : S) :
    (logOf d.settings view source).isSome ↔
      (d.handle view (.loadFile source)).2.2 = .ok () := by
  rw [handle_eq, run_loadFile, logOf]
  cases (indexLines (view source) d.settings).2 with
  | error error => simp
  | ok lines => simp

/-- A load that leaves a log has told its lines, after nothing but progress. -/
theorem Dispatcher.loadFile_told {view : S → ByteSource} {log : LoadedLog S}
    (hlines : (indexLines (view log.source) d.settings).2 = .ok log.lines) :
    ∃ progress, (d.handle view (.loadFile log.source)).2.1
        = progress ++ [.fileLoaded log.lines] ∧
      ∀ n ∈ progress, ∃ offset size, n = .fileLoadProgress offset size := by
  refine ⟨(indexLines (view log.source) d.settings).1.map
    fun p => .fileLoadProgress p.done p.total, ?_,
    fun n => eq_fileLoadProgress⟩
  rw [handle_eq, run_loadFile, hlines]
  exact List.append_nil _

theorem Dispatcher.isSome_after (settings : Settings)
    (history : List (Turn S)) :
    ((start settings).after history).log.isSome ↔
      ∃ before view source later, LastLoad history before view source later ∧
        (((start settings).after before).handle view
          (.loadFile source)).2.2 = .ok () := by
  constructor
  · intro hsome
    rcases after_cases settings history with
      hnone | ⟨before, view, source, later, hlast, hlog⟩
    · rw [hnone] at hsome
      exact absurd hsome (by simp)
    · refine ⟨before, view, source, later, hlast,
        (logOf_isSome view source).mp ?_⟩
      rw [after_settings]
      rw [hlog] at hsome
      exact hsome
  · rintro ⟨before, view, source, later, hlast, hok⟩
    rw [after_lastLoad hlast]
    have hsome := (logOf_isSome view source).mpr hok
    rwa [after_settings] at hsome

theorem Dispatcher.lastLoad_of_after {settings : Settings}
    {history : List (Turn S)} {log : LoadedLog S}
    (hlog : ((start settings).after history).log = some log) :
    ∃ before view later, LastLoad history before view log.source later ∧
      (indexLines (view log.source) settings).2 = .ok log.lines := by
  rcases after_cases settings history with
    hnone | ⟨before, view, source, later, hlast, hkept⟩
  · rw [hnone] at hlog
    exact absurd hlog (by simp)
  · obtain ⟨rfl, hlines⟩ := logOf_eq_some.mp (hkept.symm.trans hlog)
    exact ⟨before, view, later, hlast, hlines⟩

/-! ## Lines by their index -/

theorem Dispatcher.line_of_none (hlog : d.log = none) (i : Nat) :
    d.line i = .error .noFileLoaded := by
  rw [line, loaded, hlog]
  rfl

theorem Dispatcher.line_of_some {log : LoadedLog S} (hlog : d.log = some log)
    (i : Nat) :
    d.line i = match log.lines[i]? with
      | some line => .ok line
      | none => .error (.lineOutOfRange i log.lines.length) := by
  rw [line, loaded, hlog]
  rfl

end

/-- After any turns, a log is kept if and only if there was a load and the last
one succeeded. It is the source of that load, with the lines that its index
has and that it told; every query leaves it alone and asks nothing else, and
lines are looked up in nothing else. -/
theorem Dispatcher.session_after {S : Type} (settings : Settings)
    (history : List (Turn S)) :
    let d := (Dispatcher.start settings).after history
    (d.log.isSome ↔ ∃ before view source later,
      LastLoad history before view source later ∧
      (((Dispatcher.start settings).after before).handle view
        (.loadFile source)).2.2 = .ok ()) ∧
    (∀ log, d.log = some log → ∃ before view later,
      LastLoad history before view log.source later ∧
      (indexLines (view log.source) settings).2 = .ok log.lines ∧
      ∃ progress,
        (((Dispatcher.start settings).after before).handle view
          (.loadFile log.source)).2.1 = progress ++ [.fileLoaded log.lines] ∧
        ∀ n ∈ progress, ∃ offset size, n = .fileLoadProgress offset size) ∧
    (∀ view c, c.isQuery → (d.handle view c).1 = d) ∧
    (∀ log, d.log = some log → ∀ view : S → ByteSource,
      (∀ line,
        let (reports, answer) := readLine (view log.source) settings line
        d.handle view (.forecastInfo line)
          = (d, reports.map (Notification.ofReport line)
            ++ failureNotes (.forecastInfo line : Command S)
              (endedWith answer), endedWith answer)) ∧
      (let (progress, answer) :=
        Ridership.interestingTrips (view log.source) settings log.lines
       d.handle view .interestingTrips
          = (d, progress.map (fun p => .interestingTripsProgress p.done p.total)
            ++ rankedNotes answer
            ++ failureNotes (.interestingTrips : Command S)
              (endedWith answer), endedWith answer)) ∧
      (∀ i (h : i < log.lines.length), d.line i = .ok log.lines[i]) ∧
      (∀ i, log.lines.length ≤ i →
        d.line i = .error (.lineOutOfRange i log.lines.length))) ∧
    (d.log = none →
      (∀ view c, c.isQuery → (d.handle view c).2.2 = .error .noFileLoaded) ∧
      (∀ i, d.line i = .error .noFileLoaded)) := by
  intro d
  have hsettings : d.settings = settings := after_settings history
  refine ⟨?_, ?_, fun view c hc => handle_query view hc, ?_, ?_⟩
  · exact isSome_after settings history
  · intro log hlog
    obtain ⟨before, view, later, hlast, hlines⟩ := lastLoad_of_after hlog
    refine ⟨before, view, later, hlast, hlines, loadFile_told ?_⟩
    rw [after_settings]
    exact hlines
  · intro log hlog view
    refine ⟨fun line => ?_, ?_, fun i hi => ?_, fun i hi => ?_⟩
    · dsimp only
      rw [handle_eq, run_forecastInfo view hlog, hsettings]
    · dsimp only
      rw [handle_eq, run_interestingTrips view hlog, hsettings]
    · rw [line_of_some hlog, List.getElem?_eq_getElem hi]
    · rw [line_of_some hlog, List.getElem?_eq_none hi]
  · intro hlog
    refine ⟨fun view c hc => ?_, line_of_none hlog⟩
    rw [handle_eq, run_of_none view hlog hc]

/-- Two lines at hand. -/
def twoLines : LogSource := .memory "a\nb".toUTF8.toList

/-- A source that gives out in the second of two lines. -/
def brokenLines : LogSource :=
  .broken twoLines
    { stream := false, sliceFrom := none, readAt := some 2, cause := .badPlace }

/-- A load that fails leaves nothing of the one before, and a later one starts
afresh. -/
theorem Dispatcher.session_after_of_reload :
    let view := LogSource.view fun _ => .error .notFound
    let failing : List (Turn LogSource) :=
      [⟨view, .loadFile twoLines⟩, ⟨view, .loadFile brokenLines⟩]
    let reloading := failing ++
      [⟨view, .loadFile twoLines⟩, ⟨view, .interestingTrips⟩]
    ((Dispatcher.start .default).after failing).log.isSome = false ∧
    ((Dispatcher.start .default).after reloading).log.isSome = true := by
  intro view failing reloading
  have hok : (((Dispatcher.start .default).after failing).handle view
      (.loadFile twoLines)).2.2.isOk = true := by
    decide +kernel
  refine ⟨by decide +kernel, (session_after .default reloading).1.mpr
    ⟨failing, view, twoLines, [⟨view, .interestingTrips⟩],
      ⟨rfl, by decide⟩, ?_⟩⟩
  · match h : (((Dispatcher.start .default).after failing).handle view
        (.loadFile twoLines)).2.2 with
    | .ok () => rfl
    | .error error =>
        rw [h] at hok
        exact absurd hok (by simp [Except.isOk, Except.toBool])

end Ridership.Session

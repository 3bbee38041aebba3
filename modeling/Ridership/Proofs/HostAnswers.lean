import Ridership.Proofs.SessionHistory
import Ridership.Proofs.Targets

/-!
# A host adds refusals to its dispatcher, and nothing else

A request can go wrong in two places. Before it comes to a command, the host
refuses it: the status says why, and the dispatcher has not been asked and
is as it was. Once there is a command the answer is a success, and all that
goes wrong from then on is told in its notifications.

Loading a file shows both. A file that cannot be opened is refused and the
log of before stays; a file that opens and then cannot be read has cost that
log already, as it would have without a host around the dispatcher.

So the state of a host is one that its dispatcher has come to by commands
alone (`Host.served_eq_after`), and each request is either refused by what
is known of that state or is the dispatcher's own answer (`Host.Runs`).
-/

namespace Ridership.Server

open Log (Line)
open Session (Command CommandError Dispatcher LoadedLog Turn)
open Storage (FileSource Lookup)

/-! ## What is asked -/

/-- Something that a host can be asked about its log. -/
inductive Ask where
  | load (path : String)
  | lines
  | forecast (index : Nat)
  | interestingTrips

/-- Whether a request asks for this, in a way that is understood. -/
def Request.Asks (r : Request) : Ask → Prop
  | .load path => r.method = "POST" ∧
      Route.of? r.target = some .fileLoad ∧ r.loadPath = .ok path
  | .lines => r.method = "GET" ∧ Route.of? r.target = some .lines
  | .forecast index => r.method = "GET" ∧ ∃ segment,
      Route.of? r.target = some (.lineForecast segment) ∧
      readIndex? segment = some index
  | .interestingTrips => r.method = "GET" ∧
      Route.of? r.target = some .interestingTrips

/-- Whether a request asks for this in the plain words for it. -/
def Request.Says (r : Request) : Ask → Prop
  | .load path => r.method = "POST" ∧ r.target = "/file/load" ∧
      r.loadPath = .ok path
  | .lines => r.method = "GET" ∧ r.target = "/lines"
  | .forecast index => r.method = "GET" ∧ r.target = forecastTarget index ∧
      index < widthSize 64
  | .interestingTrips => r.method = "GET" ∧ r.target = "/interesting-trips"

theorem Request.Says.asks {r : Request} {ask : Ask} (h : r.Says ask) :
    r.Asks ask := by
  cases ask with
  | load path =>
      obtain ⟨hmethod, htarget, hpath⟩ := h
      exact ⟨hmethod, by rw [htarget]; rfl, hpath⟩
  | lines | interestingTrips =>
      obtain ⟨hmethod, htarget⟩ := h
      exact ⟨hmethod, by rw [htarget]; rfl⟩
  | forecast index =>
      obtain ⟨hmethod, htarget, hindex⟩ := h
      refine ⟨hmethod, toString index, ?_, readIndex?_repr hindex⟩
      rw [htarget]
      exact Route.of?_lineForecast index

/-- A request with the files as they are while it is answered. -/
structure Call where
  find : Lookup
  request : Request

/-- A host that has answered some requests. -/
def Host.served (h : Host) (calls : List Call) : Host :=
  calls.foldl (fun h call => (h.respond call.find call.request).1) h

/-! ## What is answered -/

/-- A refusal: a status, and everything as it was. -/
structure Host.Refuses (h : Host) (status : Nat) (answered : Host × Response) :
    Prop where
  state_eq : answered.1 = h
  status_eq : answered.2.status = status

/-- An answer that tells what a command tells and leaves what it leaves. If the
command fails, this is the last thing that is told. -/
structure Host.Runs (find : Lookup) (h : Host) (c : Command FileSource)
    (answered : Host × Response) : Prop where
  state_eq : answered.1 = (h.handle (FileSource.view find) c).1
  status_eq : answered.2.status = 200
  content_eq : answered.2.content = some ⟨linesType,
    Session.bodyOfLines (h.handle (FileSource.view find) c).2.1⟩
  failure_last : ∀ error : CommandError,
    (h.handle (FileSource.view find) c).2.2 = .error error →
    (h.handle (FileSource.view find) c).2.1.getLast?
      = some (.commandFailed c.name error.message)

section

variable {find : Lookup} {h : Host} {r : Request}

theorem Host.answer_runs (c : Command FileSource) :
    h.Runs find c (h.answer find c) := by
  refine ⟨rfl, rfl, rfl, ?_⟩
  intro error herror
  rw [Dispatcher.handle_eq] at herror ⊢
  have hfailed : (h.run (FileSource.view find) c).2.2 = .error error := herror
  dsimp only
  rw [hfailed, Session.failureNotes]
  exact List.getLast?_concat

theorem Host.loaded_of_none (hlog : h.log = none) :
    h.loaded = .error .noFileLoaded := by
  rw [Dispatcher.loaded, hlog]

theorem Host.loaded_of_some {log : LoadedLog FileSource}
    (hlog : h.log = some log) : h.loaded = .ok log := by
  rw [Dispatcher.loaded, hlog]

/-! ## Each question

A request that is understood is looked up in the state, and this is the only
thing that decides between a refusal and a command. -/

theorem Host.respond_of_route {route : Route}
    (hroute : Route.of? r.target = some route)
    (hallowed : route.allows r.method = true) (hhead : r.method ≠ "HEAD") :
    h.respond find r = h.follow find r route := by
  rw [respond, hroute]
  dsimp only
  rw [if_pos hallowed, if_neg hhead]

theorem Host.respond_lines (find : Lookup) (h : Host) (hasks : r.Asks .lines) :
    (h.log = none ∧ h.Refuses 409 (h.respond find r)) ∨
    ∃ log, h.log = some log ∧ h.respond find r
      = (h, .json 200
        (.object [("lines", .array (log.lines.map Line.toValue))])) := by
  obtain ⟨hmethod, hroute⟩ := hasks
  have hfollow : h.respond find r = (h, h.listLines) :=
    respond_of_route hroute (by simp [Route.allows, hmethod])
      (by simp [hmethod])
  rw [hfollow, listLines]
  cases hlog : h.log with
  | none =>
      rw [loaded_of_none hlog]
      exact .inl ⟨rfl, rfl, rfl⟩
  | some log =>
      rw [loaded_of_some hlog]
      exact .inr ⟨log, rfl, rfl⟩

theorem Host.respond_forecast (find : Lookup) (h : Host) {index : Nat}
    (hasks : r.Asks (.forecast index)) :
    (h.log = none ∧ h.Refuses 409 (h.respond find r)) ∨
    (∃ log, h.log = some log ∧ log.lines.length ≤ index ∧
      h.Refuses 404 (h.respond find r)) ∨
    ∃ log line, h.log = some log ∧ log.lines[index]? = some line ∧
      h.Runs find (.forecastInfo line) (h.respond find r) := by
  obtain ⟨hmethod, segment, hroute, hindex⟩ := hasks
  have hfollow : h.respond find r = h.lineForecast find segment :=
    respond_of_route hroute (by simp [Route.allows, hmethod])
      (by simp [hmethod])
  rw [hfollow, lineForecast, hindex]
  dsimp only
  cases hlog : h.log with
  | none =>
      rw [Dispatcher.line_of_none hlog]
      exact .inl ⟨rfl, rfl, rfl⟩
  | some log =>
      rw [Dispatcher.line_of_some hlog]
      cases hline : log.lines[index]? with
      | none =>
          have hout : log.lines.length ≤ index :=
            List.getElem?_eq_none_iff.mp hline
          exact .inr (.inl ⟨log, rfl, hout, rfl, rfl⟩)
      | some line =>
          exact .inr (.inr ⟨log, line, rfl, hline, answer_runs _⟩)

theorem Host.respond_interestingTrips (find : Lookup) (h : Host)
    (hasks : r.Asks .interestingTrips) :
    (h.log = none ∧ h.Refuses 409 (h.respond find r)) ∨
    ((∃ log, h.log = some log) ∧
      h.Runs find .interestingTrips (h.respond find r)) := by
  obtain ⟨hmethod, hroute⟩ := hasks
  have hfollow : h.respond find r = h.interestingTrips find :=
    respond_of_route hroute (by simp [Route.allows, hmethod])
      (by simp [hmethod])
  rw [hfollow, Host.interestingTrips]
  cases hlog : h.log with
  | none =>
      rw [loaded_of_none hlog]
      exact .inl ⟨rfl, rfl, rfl⟩
  | some log =>
      rw [loaded_of_some hlog]
      exact .inr ⟨⟨log, rfl⟩, answer_runs _⟩

/-- Whether a file opens is found out before the dispatcher hears of it. -/
theorem Host.respond_load {path : String} (hasks : r.Asks (.load path)) :
    match FileSource.open find path with
    | .error cause => h.Refuses (if cause = .notFound then 404 else 400)
        (h.respond find r)
    | .ok source => h.Runs find (.loadFile source) (h.respond find r) := by
  obtain ⟨hmethod, hroute, hpath⟩ := hasks
  have hfollow : h.respond find r = h.load find r :=
    respond_of_route hroute (by simp [Route.allows, hmethod])
      (by simp [hmethod])
  rw [hfollow, load, hpath]
  dsimp only
  cases FileSource.open find path with
  | error cause =>
      refine ⟨rfl, ?_⟩
      cases cause <;> rfl
  | ok source => exact answer_runs _

/-! ## Histories -/

/-- A request leaves the dispatcher alone, or has it run one command. -/
theorem Host.respond_state (find : Lookup) (h : Host) (r : Request) :
    (h.respond find r).1 = h ∨ ∃ c : Command FileSource,
      (h.respond find r).1 = (h.handle (FileSource.view find) c).1 := by
  rw [respond]
  split
  · exact .inl rfl
  · next route _ =>
      split
      · show (h.follow find r route).1 = h ∨ ∃ c : Command FileSource,
          (h.follow find r route).1 = (h.handle (FileSource.view find) c).1
        cases route with
        | health | lines => exact .inl rfl
        | fileLoad =>
            rw [follow, load]
            split
            · exact .inl rfl
            · split
              · exact .inl rfl
              · exact .inr ⟨_, rfl⟩
        | lineForecast segment =>
            rw [follow, lineForecast]
            split
            · exact .inl rfl
            · split
              · exact .inl rfl
              · exact .inr ⟨_, rfl⟩
        | interestingTrips =>
            rw [follow, Host.interestingTrips]
            split
            · exact .inl rfl
            · exact .inr ⟨_, rfl⟩
      · exact .inl rfl

theorem Host.served_eq_after (h : Host) (calls : List Call) :
    ∃ history : List (Turn FileSource), h.served calls = h.after history := by
  induction calls generalizing h with
  | nil => exact ⟨[], rfl⟩
  | cons call calls ih =>
      obtain ⟨history, hrest⟩ := ih (h.respond call.find call.request).1
      rcases respond_state call.find h call.request with hsame | ⟨c, hrun⟩
      · refine ⟨history, ?_⟩
        show (h.respond call.find call.request).1.served calls = _
        rw [hrest, hsame]
      · refine ⟨⟨FileSource.view call.find, c⟩ :: history, ?_⟩
        show (h.respond call.find call.request).1.served calls
          = (h.handle (FileSource.view call.find) c).1.after history
        rw [hrest, hrun]

end

/-- After any requests, a host is in a state of its dispatcher, and answers by
that state. Without a log every question about one is refused with 409, and
with one a line that is not there is refused with 404; a file that cannot be
opened is refused with 404 if there is none and with 400 otherwise. A refusal
changes nothing. Everything else is answered with success: the lines, or what
the dispatcher tells of the command, with the state that the command leaves. -/
theorem Host.respond_refines (settings : Settings) (calls : List Call)
    (find : Lookup) (r : Request) :
    let h := Host.served (.start settings) calls
    let answered := h.respond find r
    (∃ history : List (Turn FileSource),
      h = (Dispatcher.start settings).after history) ∧
    (∀ ask, r.Says ask → r.Asks ask) ∧
    (r.Asks .lines →
      answered.1 = h ∧
      (answered.2.status = 409 ↔ h.log = none) ∧
      ∀ log, h.log = some log → answered.2
        = .json 200 (.object [("lines", .array (log.lines.map Line.toValue))])) ∧
    (∀ index, r.Asks (.forecast index) →
      (answered.2.status = 409 ↔ h.log = none) ∧
      (answered.2.status = 404 ↔
        ∃ log, h.log = some log ∧ log.lines.length ≤ index) ∧
      (answered.2.status = 409 ∨ answered.2.status = 404 → answered.1 = h) ∧
      ∀ log line, h.log = some log → log.lines[index]? = some line →
        h.Runs find (.forecastInfo line) answered) ∧
    (r.Asks .interestingTrips →
      (answered.2.status = 409 ↔ h.log = none) ∧
      (answered.2.status = 409 → answered.1 = h) ∧
      (h.log ≠ none → h.Runs find .interestingTrips answered)) ∧
    (∀ path, r.Asks (.load path) →
      match FileSource.open find path with
      | .error cause =>
          h.Refuses (if cause = .notFound then 404 else 400) answered
      | .ok source => h.Runs find (.loadFile source) answered) := by
  intro h answered
  refine ⟨Host.served_eq_after _ calls, fun _ => Request.Says.asks, ?_, ?_, ?_,
    fun path => Host.respond_load⟩
  · intro hasks
    rcases Host.respond_lines find h hasks with
      ⟨hlog, hstate, hstatus⟩ | ⟨log, hlog, hanswered⟩
    · exact ⟨hstate, by simp [answered, hstatus, hlog], by simp [hlog]⟩
    · have hstatus : answered.2.status = 200 := congrArg (·.2.status) hanswered
      refine ⟨congrArg Prod.fst hanswered, by simp [hstatus, hlog], ?_⟩
      rintro found hfound
      obtain rfl := Option.some.inj (hlog.symm.trans hfound)
      exact congrArg Prod.snd hanswered
  · intro index hasks
    rcases Host.respond_forecast find h hasks with
      ⟨hlog, hstate, hstatus⟩ | ⟨log, hlog, hout, hstate, hstatus⟩ |
      ⟨log, line, hlog, hline, hruns⟩
    · simp [answered, hlog, hstate, hstatus]
    · have hnone : log.lines[index]? = none := List.getElem?_eq_none hout
      refine ⟨by simp [answered, hlog, hstatus],
        by simp [answered, hlog, hstatus, hout], fun _ => hstate, ?_⟩
      intro found line hfound hat
      obtain rfl := Option.some.inj (hlog.symm.trans hfound)
      rw [hnone] at hat
      cases hat
    · have hin : ¬ log.lines.length ≤ index := by
        intro hout
        rw [List.getElem?_eq_none hout] at hline
        cases hline
      have hstatus := hruns.status_eq
      refine ⟨by simp [answered, hstatus, hlog],
        by simp [answered, hstatus, hlog, hin], by simp [answered, hstatus], ?_⟩
      intro found at_index hfound hat
      obtain rfl := Option.some.inj (hlog.symm.trans hfound)
      obtain rfl := Option.some.inj (hline.symm.trans hat)
      exact hruns
  · intro hasks
    rcases Host.respond_interestingTrips find h hasks with
      ⟨hlog, hstate, hstatus⟩ | ⟨⟨log, hlog⟩, hruns⟩
    · simp [answered, hlog, hstate, hstatus]
    · have hstatus := hruns.status_eq
      exact ⟨by simp [answered, hstatus, hlog], by simp [answered, hstatus],
        fun _ => hruns⟩

/-- A file of one line is loaded, and its second line is asked for. -/
theorem Host.respond_refines_of_missing_line :
    let find : Lookup := fun _ => .ok (.file [0x78, 0x0A])
    let load : Request := ⟨"POST", "/file/load", some "application/json",
      "\x7b\x22path\x22:\x22log\x22\x7d".toUTF8.toList⟩
    let h := Host.served (.start .default) [⟨find, load⟩]
    let r : Request := ⟨"GET", forecastTarget 1, none, []⟩
    r.Says (.forecast 1) ∧ h.log.map (·.lines.length) = some 1 ∧
      h.Refuses 404 (h.respond find r) := by
  intro find load h r
  have hplain : r.Says (.forecast 1) := ⟨rfl, rfl, by decide⟩
  have hcount : h.log.map (·.lines.length) = some 1 := by decide +kernel
  obtain ⟨-, hasks, -, hforecast, -, -⟩ :=
    Host.respond_refines .default [⟨find, load⟩] find r
  obtain ⟨-, hmissing, hkept, -⟩ := hforecast 1 (hasks _ hplain)
  obtain ⟨log, hlog, hlength⟩ := Option.map_eq_some_iff.mp hcount
  have hstatus : (h.respond find r).2.status = 404 :=
    hmissing.mpr ⟨log, hlog, by omega⟩
  exact ⟨hplain, hcount, hkept (.inr hstatus), hstatus⟩

end Ridership.Server

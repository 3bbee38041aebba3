import Ridership.Proofs.LineReference

/-!
# What a line reports, and when

Outcomes and progress are reported while a line is read, and its end only
behind all of them, once and only if nothing went wrong. A forecast is reported
before anybody has asked when its snapshot was taken, so it has no time yet.

Neither the scanner nor the assembler knows of reports. So it is enough that
one event leaves the reports of a line as they should be (`see_interim`); what
the listener keeps at every event is kept by a whole run of the scanner.

The errors come along on the same way. An error that a source has not made
itself blames the text of the line.
-/

namespace Ridership.Forecast

open Json (Event Reader Scanner Selected Value)
open Log (Line)
open Storage (ByteSource Delivery Fault Read bytesOf faultOf)

/-- A report after which the line goes on. -/
def Report.Interim : Report → Prop
  | .outcome (.forecast f) => f.systemTime = none
  | .outcome (.rejected _ _) | .progress _ _ => True
  | .done => False

/-- An error that blames the text of a line. -/
def ForecastError.Malformed (error : ForecastError) : Prop :=
  ∃ place message, error = .malformedRecord place message

/-! ## Outcomes -/

theorem TripForecast.assemble_untimed {trip : Trip} {raw : List RawEdge}
    {context : TripContext} {f : TripForecast}
    (h : assemble trip raw context = .ok f) : f.systemTime = none := by
  rw [assemble] at h
  rcases hedges : (raw.filter fun e => !e.isSelfLoop).mapM Edge.summarize with
    error | edges
  · rw [hedges] at h
    cases h
  · rw [hedges] at h
    cases h
    rfl

theorem Outcome.ofEdges_interim {trip : Trip} {edges : List RawEdge}
    {context : TripContext} {o : Outcome}
    (h : ofEdges trip edges context = .ok o) :
    (Report.outcome o).Interim := by
  rw [ofEdges] at h
  split at h
  · next f hf =>
      cases h
      exact TripForecast.assemble_untimed hf
  · cases h
    exact trivial
  · cases h

theorem Assembler.update_silent {α : Type} {a : Assembler} {read : Reader α}
    {key : String} {v : Value} {offset : Nat} {set : α → Assembler}
    {o : Outcome} :
    (a.update read key v offset set).2 ≠ .ok (some o) := by
  rw [update]
  split <;> simp

theorem Assembler.accept_interim {a : Assembler} {found : Selected}
    {offset : Nat} {o : Outcome} (h : (a.accept found offset).2 = .ok (some o)) :
    (Report.outcome o).Interim := by
  unfold accept at h
  split at h
  · split at h
    · exact absurd h update_silent
    · exact absurd h update_silent
    · exact absurd h update_silent
    · cases h
  · next items =>
      dsimp only at h
      split at h
      · exact absurd h update_silent
      · split at h
        · cases h
        · next trip _ =>
            rcases hread : readSelected (Json.readList RawEdge.read) "edges"
                (Value.array items) offset with fault | edges
            · rw [hread] at h
              cases h
            · rw [hread] at h
              rcases ho : Outcome.ofEdges trip edges a.context with error | o'
              · simp [Bind.bind, Except.bind, ho, Except.map] at h
              · obtain rfl : o' = o := by
                  simpa [Bind.bind, Except.bind, ho, Except.map] using h
                exact Outcome.ofEdges_interim ho
      · cases h

/-! ## Events -/

/-- A line that has only reported what it goes on after. -/
def LineState.Interim (x : LineState) : Prop :=
  ∀ report ∈ x.reports, report.Interim

theorem LineState.see_interim (offset : Nat) {x : LineState} (hx : x.Interim)
    (e : Event) (depth : Nat) :
    (see offset x e depth).2.Interim ∧
    ∀ error, (see offset x e depth).1 = .error error → error.Malformed := by
  rcases hselect : x.selector.accept isTripKey e depth with
    ⟨selector, _ | found⟩
  · simp only [see, hselect]
    exact ⟨hx, fun error h => absurd h (by simp)⟩
  · rcases haccept : x.assembler.accept found offset with
      ⟨assembler, error | _ | o⟩
    · simp only [see, hselect, haccept]
      refine ⟨hx, ?_⟩
      rintro _ ⟨⟩
      obtain ⟨message, -, rfl⟩ := Assembler.accept_error haccept
      exact ⟨offset, message, rfl⟩
    · simp only [see, hselect, haccept]
      exact ⟨hx, fun error h => absurd h (by simp)⟩
    · simp only [see, hselect, haccept]
      refine ⟨?_, fun error h => absurd h (by simp)⟩
      intro report hmem
      rcases List.mem_cons.mp hmem with rfl | hmem
      · exact Assembler.accept_interim (congrArg Prod.snd haccept)
      · exact hx report hmem

theorem LineState.drain_interim (offset : Nat) {x : LineState}
    (hx : x.Interim) (ending : Bool) (s : Scanner) :
    (s.drain (see offset) ForecastError.ofScan ending x).2.1.Interim ∧
    ∀ error, (s.drain (see offset) ForecastError.ofScan ending x).1
      = .error error → error.Malformed :=
  Scanner.drain_keeps (P := LineState.Interim) (Q := ForecastError.Malformed)
    (fun _ e depth hx => see_interim offset hx e depth)
    (fun fault => ⟨fault.offset, fault.error.message, rfl⟩) ending s hx

/-! ## The loop over the pieces -/

theorem BodyState.feed_interim {b : BodyState} (hb : b.line.Interim)
    (piece : List UInt8) :
    (b.feed piece).2.line.Interim ∧
    ∀ error, (b.feed piece).1 = .error error → error.Malformed :=
  LineState.drain_interim b.consumed hb false (b.scanner.receive piece)

theorem BodyState.finish_interim {b : BodyState} (hb : b.line.Interim) :
    b.finish.2.line.Interim ∧
    ∀ error, b.finish.1 = .error error → error.Malformed := by
  unfold finish Scanner.finish
  cases b.scanner.started with
  | true => exact LineState.drain_interim b.consumed hb true b.scanner
  | false => exact ⟨hb, fun error h => absurd h (by simp)⟩

theorem BodyState.count_interim {b : BodyState} (hb : b.line.Interim)
    (size step length : Nat) :
    (b.count size step length).line.Interim := by
  unfold count
  dsimp only
  split
  · intro report hmem
    rcases List.mem_cons.mp hmem with rfl | hmem
    · exact trivial
    · exact hb report hmem
  · exact hb

theorem BodyState.readAll_interim (size step : Nat) {b : BodyState}
    (hb : b.line.Interim) (reads : List Read) :
    let read := b.readAll size step reads
    (∃ told, read.2.line.reports = closing read.1 ++ told ∧
      ∀ report ∈ told, report.Interim) ∧
    ∀ error, read.1 = .error error →
      error.Malformed ∨ ∃ f, faultOf reads = some f ∧ error = .streamRead f := by
  induction reads generalizing b with
  | nil =>
      obtain ⟨hline, herror⟩ := b.finish_interim hb
      rw [readAll]
      rcases hfinish : b.finish with ⟨error | ⟨⟩, b'⟩
      · rw [hfinish] at hline herror
        refine ⟨⟨_, rfl, hline⟩, ?_⟩
        rintro _ ⟨⟩
        exact .inl (herror error rfl)
      · rw [hfinish] at hline
        exact ⟨⟨_, rfl, hline⟩, fun error h => absurd h (by simp)⟩
  | cons read reads ih =>
      cases read with
      | fault f =>
          refine ⟨⟨_, rfl, hb⟩, ?_⟩
          rintro _ ⟨⟩
          exact .inr ⟨f, rfl, rfl⟩
      | bytes piece =>
          obtain ⟨hline, herror⟩ := b.feed_interim hb piece
          rw [readAll]
          rcases hfeed : b.feed piece with ⟨error | ⟨⟩, b'⟩
          · rw [hfeed] at hline herror
            refine ⟨⟨_, rfl, hline⟩, ?_⟩
            rintro _ ⟨⟩
            exact .inl (herror error rfl)
          · rw [hfeed] at hline
            exact ih (count_interim hline size step piece.length)

/-! ## The line -/

/-- A line reports its end behind everything else, if it got there. An error
blames its text, or is the fault of what was delivered. -/
theorem readLine_interim (source : ByteSource) (settings : Settings)
    (line : Line) :
    let read := readLine source settings line
    (∃ told, read.1 = told ++ closing read.2 ∧
      ∀ report ∈ told, report.Interim) ∧
    ∀ delivery, source.slice line.start line.stop = .ok delivery →
      ∀ error, read.2 = .error error →
        error.Malformed ∨
          ∃ f, delivery.fault = some f ∧ error = .streamRead f := by
  rw [readLine]
  rcases hslice : source.slice line.start line.stop with cause | delivery
  · refine ⟨⟨[], rfl, fun report h => absurd h List.not_mem_nil⟩, ?_⟩
    intro delivery h
    exact absurd h (by simp)
  · have hstart : BodyState.start.line.Interim := fun report h =>
      absurd h List.not_mem_nil
    obtain ⟨⟨told, htold, hinterim⟩, herror⟩ := BodyState.readAll_interim
      line.bodyLength settings.lineProgressStep hstart
      (delivery.reads settings.readSize)
    refine ⟨⟨told.reverse, ?_, fun report h =>
      hinterim report (List.mem_reverse.mp h)⟩, ?_⟩
    · dsimp only
      rw [htold, List.reverse_append]
      cases (BodyState.start.readAll line.bodyLength settings.lineProgressStep
        (delivery.reads settings.readSize)).1 <;> rfl
    · rintro _ ⟨⟩ error h
      have := herror error h
      rwa [(delivery.bytesOf_reads settings.readSize).2] at this

theorem readLine_untimed {source : ByteSource} {settings : Settings}
    {line : Line} {f : TripForecast}
    (h : .outcome (.forecast f) ∈ (readLine source settings line).1) :
    f.systemTime = none := by
  obtain ⟨⟨told, htold, hinterim⟩, -⟩ := readLine_interim source settings line
  rw [htold] at h
  rcases List.mem_append.mp h with h | h
  · exact hinterim _ h
  · match (readLine source settings line).2, h with
    | .ok (), h => exact absurd (List.mem_singleton.mp h) (by simp)
    | .error _, h => exact absurd h List.not_mem_nil

end Ridership.Forecast

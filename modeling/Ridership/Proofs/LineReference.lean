import Ridership.Forecast.LineReading
import Ridership.Proofs.Assembling
import Ridership.Proofs.Deliveries
import Ridership.Proofs.Listening
import Ridership.Proofs.TextTree
import Ridership.Proofs.TreeSelection

/-!
# A line read piece by piece is its tree read at once

The reference for a line has no pieces and no events. It makes the tree of the
whole body, picks the members that belong to trips and gives them to an
assembler, one after another. A body that the scanner accepts leads to just
that, in whatever pieces it arrives.

Four machines work hand in hand when a line is read, and each is brought to
the reference in its own way. The loop over the pieces adds two things that no
other machine looks at, the reports of progress and the place that an error is
blamed on; with both left out it is one run under one listener
(`readAll_eq_takeAll`). The scanner does not mind the cuts. What its listener
makes of the events is what the assembler makes of the sub-trees found in them
(`hear_see`), and these are the ones in the tree.
-/

namespace Ridership.Forecast

open Json (Event Scanner ScanFault Selected Selector Tree)
open Log (Line)
open Storage (ByteSource Delivery Fault Read)

/-! ## The reference -/

/-- The sub-trees of a body that belong to trips, in the order of the text. -/
def tripParts (body : Tree) : List Selected :=
  ((body.membersAt tripDepth).filter fun member => tripKeys.contains member.1)
    |>.filterMap Tree.toSelected?

/-- Whether a report tells progress and nothing else. -/
def Report.isProgress : Report → Bool
  | .progress _ _ => true
  | _ => false

/-- What is reported of a line besides its progress. -/
def withoutProgress (reports : List Report) : List Report :=
  reports.filter fun report => !report.isProgress

/-- Who does not look at progress picks the same out of what is reported
besides it. -/
theorem filterMap_withoutProgress {α : Type} {f : Report → Option α}
    (hf : ∀ consumed size, f (.progress consumed size) = none)
    (reports : List Report) :
    (withoutProgress reports).filterMap f = reports.filterMap f := by
  induction reports with
  | nil => rfl
  | cons report reports ih =>
      match report with
      | .progress consumed size =>
          rw [List.filterMap_cons_none (hf consumed size), ← ih]
          rfl
      | .outcome o =>
          show (Report.outcome o :: withoutProgress reports).filterMap f = _
          rw [List.filterMap_cons, List.filterMap_cons, ih]
      | .done =>
          show (Report.done :: withoutProgress reports).filterMap f = _
          rw [List.filterMap_cons, List.filterMap_cons, ih]

/-- Whether the reports of a line and its end are what the tree of its body
asks for. The place that an error is blamed on is left open. -/
def MatchesReference (body : Tree) (reports : List Report)
    (result : Except ForecastError Unit) : Prop :=
  match Assembler.start.acceptAll 0 (tripParts body) with
  | (outcomes, .ok ()) =>
      result = .ok () ∧
        withoutProgress reports = outcomes.map .outcome ++ [.done]
  | (outcomes, .error error) =>
      (∃ place message, error = .malformedRecord 0 message ∧
        result = .error (.malformedRecord place message)) ∧
      withoutProgress reports = outcomes.map .outcome

/-! ## What a line makes of events -/

/-- A line without its reports of progress. -/
def LineState.quiet (x : LineState) : LineState :=
  { x with reports := withoutProgress x.reports }

/-- An event does the same wherever its piece begins, but for the place that
an error tells, and the reports of progress do not matter to it. -/
theorem LineState.see_quiet (offset : Nat) (x : LineState) (e : Event)
    (depth : Nat) :
    see 0 x.quiet e depth
      = ((see offset x e depth).1.mapError ForecastError.placeless,
        (see offset x e depth).2.quiet) := by
  rcases hselect : x.selector.accept isTripKey e depth with
    ⟨selector, _ | found⟩
  · simp only [see, quiet, hselect]
    rfl
  · have hplace := Assembler.accept_placeless x.assembler found offset
    rcases haccept : x.assembler.accept found offset with
      ⟨assembler, error | _ | o⟩ <;>
    · rw [haccept] at hplace
      simp only [see, quiet, hselect, haccept, ← hplace]
      rfl

/-- What a line makes of events is what its assembler makes of the sub-trees
that its selector finds in them. -/
theorem LineState.hear_see (offset : Nat) (x : LineState)
    (told : List (Event × Nat)) :
    (Scanner.hear (see offset) x told).1
        = (x.assembler.acceptAll offset
            (x.selector.run isTripKey told).2).2 ∧
    (Scanner.hear (see offset) x told).2.reports
        = ((x.assembler.acceptAll offset
            (x.selector.run isTripKey told).2).1.map Report.outcome).reverse
          ++ x.reports := by
  induction told generalizing x with
  | nil => exact ⟨rfl, rfl⟩
  | cons first told ih =>
      obtain ⟨e, depth⟩ := first
      rcases hselect : x.selector.accept isTripKey e depth with
        ⟨selector, _ | found⟩
      · have hsee : see offset x e depth = (.ok (), { x with selector }) := by
          rw [see, hselect]
        rw [Scanner.hear, hsee, Selector.run_cons hselect]
        exact ih { x with selector }
      · rw [Selector.run_cons hselect]
        rcases haccept : x.assembler.accept found offset with
          ⟨assembler, error | _ | o⟩
        · have hsee : see offset x e depth
              = (.error error, { x with selector, assembler }) := by
            simp only [see, hselect, haccept]
          simp [Scanner.hear, hsee, Assembler.acceptAll, haccept]
        · have hsee : see offset x e depth
              = (.ok (), { x with selector, assembler }) := by
            simp only [see, hselect, haccept]
          have hrest := ih { x with selector, assembler }
          simpa [Scanner.hear, hsee, Assembler.acceptAll, haccept] using hrest
        · have hsee : see offset x e depth
              = (.ok (), ⟨selector, assembler, .outcome o :: x.reports⟩) := by
            simp only [see, hselect, haccept]
          have hrest := ih ⟨selector, assembler, .outcome o :: x.reports⟩
          simpa [Scanner.hear, hsee, Assembler.acceptAll, haccept] using hrest

/-- What the events of a tree make of a line that begins with it. -/
theorem LineState.hear_tree (body : Tree) :
    let read := Assembler.start.acceptAll 0 (tripParts body)
    (Scanner.hear (see 0) start (body.events 0)).1 = read.2 ∧
    (Scanner.hear (see 0) start (body.events 0)).2.reports
      = (read.1.map Report.outcome).reverse := by
  have hwatch := body.run_watching (n := tripDepth) (p := tripKeys.contains) 0 []
  have hfound : (start.selector.run isTripKey (body.events 0)).2
      = tripParts body := by
    rw [List.append_nil] at hwatch
    exact (congrArg Prod.snd hwatch).trans (List.append_nil _)
  have hhear := hear_see 0 start (body.events 0)
  rw [hfound] at hhear
  exact ⟨hhear.1, hhear.2.trans (List.append_nil _)⟩

/-! ## The loop over the pieces -/

theorem BodyState.count_scanner (b : BodyState) (size step length : Nat) :
    (b.count size step length).scanner = b.scanner := by
  unfold count
  dsimp only
  split <;> rfl

theorem BodyState.count_quiet (b : BodyState) (size step length : Nat) :
    (b.count size step length).line.quiet = b.line.quiet := by
  unfold count
  dsimp only
  split <;> rfl

/-- The report that a reading ends with, if it got to the end. -/
def closing : Except ForecastError Unit → List Report
  | .ok () => [.done]
  | .error _ => []

theorem closing_reverse (result : Except ForecastError Unit) :
    (closing result).reverse = closing result := by
  rcases result with _ | _ <;> rfl

theorem not_blamesSubtree_message (error : Json.SyntaxError) :
    ¬ BlamesSubtree error.message := by
  obtain ⟨rest, hrest⟩ :
      ∃ rest, error.message = "Parser error at line " ++ rest := by
    unfold Json.SyntaxError.message
    dsimp only
    rw [String.append_assoc, String.append_assoc, String.append_assoc,
      String.append_assoc]
    exact ⟨_, rfl⟩
  rw [BlamesSubtree, hrest, String.toList_append]
  rintro ⟨more, hmore⟩
  have hhead := congrArg List.head? hmore
  simp at hhead

/-- A text is refused at the place where it goes wrong, whatever piece
that is in. -/
theorem ForecastError.placeless_ofScan (fault : ScanFault) :
    placeless (ofScan fault) = ofScan fault := by
  rw [ofScan, placeless, if_neg (not_blamesSubtree_message fault.error)]

section

variable (offset : Nat) (s : Scanner) (x : LineState)

theorem LineState.drain_quiet (ending : Bool) :
    s.drain (see 0) ForecastError.ofScan ending x.quiet
      = ((s.drain (see offset) ForecastError.ofScan ending x).1.mapError
          ForecastError.placeless,
        (s.drain (see offset) ForecastError.ofScan ending x).2.1.quiet,
        (s.drain (see offset) ForecastError.ofScan ending x).2.2) := by
  have hrefusal : ForecastError.placeless ∘ ForecastError.ofScan
      = ForecastError.ofScan := by
    funext fault
    rw [Function.comp_apply, ForecastError.placeless_ofScan]
  have hdrain := Scanner.drain_map (see_quiet offset) ForecastError.ofScan
    ending s x
  rwa [hrefusal] at hdrain

theorem LineState.feed_quiet (piece : List UInt8) :
    s.feed (see 0) ForecastError.ofScan piece x.quiet
      = ((s.feed (see offset) ForecastError.ofScan piece x).1.mapError
          ForecastError.placeless,
        (s.feed (see offset) ForecastError.ofScan piece x).2.1.quiet,
        (s.feed (see offset) ForecastError.ofScan piece x).2.2) :=
  drain_quiet offset (s.receive piece) x false

theorem LineState.finish_quiet :
    s.finish (see 0) ForecastError.ofScan x.quiet
      = ((s.finish (see offset) ForecastError.ofScan x).1.mapError
          ForecastError.placeless,
        (s.finish (see offset) ForecastError.ofScan x).2.1.quiet,
        (s.finish (see offset) ForecastError.ofScan x).2.2) := by
  unfold Scanner.finish
  split
  · exact drain_quiet offset s x true
  · rfl

end

/-- Takes what comes behind the last piece of a body: a fault, or the end. -/
def LineState.close (fault : Option Fault) (x : LineState) (s : Scanner) :
    Except ForecastError Unit × LineState :=
  match fault with
  | none =>
      let (result, x, _) := s.finish (see 0) ForecastError.ofScan x
      (result, x)
  | some cause => (.error (.streamRead cause), x)

/-- Takes the pieces of a body and what comes behind them, all places of
sub-trees counted as none. -/
def LineState.takeAll (fault : Option Fault) (x : LineState) (s : Scanner)
    (pieces : List (List UInt8)) : Except ForecastError Unit × LineState :=
  match s.fed (see 0) ForecastError.ofScan x pieces with
  | .ok (x, s) => x.close fault s
  | .error (error, x) => (.error error, x)

/-- Takes a body that arrives at once. -/
def LineState.takeBody (fault : Option Fault) (body : List UInt8) :
    Except ForecastError Unit × LineState :=
  start.takeAll fault .start [body]

theorem LineState.takeBody_eq_scan (body : List UInt8) :
    takeBody none body
      = Scanner.start.scan (see 0) ForecastError.ofScan start [body] := by
  rw [takeBody, takeAll, Scanner.scan_eq_fed]
  rcases Scanner.start.fed (see 0) ForecastError.ofScan start [body] with
    ⟨error, x⟩ | ⟨x, s⟩
  · rfl
  · rfl

/-- With places and progress left out, going through the reads of a body is to
take its pieces and what comes behind them. -/
theorem BodyState.readAll_eq_takeAll (size step : Nat) (b : BodyState)
    (pieces : List (List UInt8)) (fault : Option Fault) :
    let read := b.readAll size step
      (pieces.map .bytes ++ (fault.map .fault).toList)
    let taken := b.line.quiet.takeAll fault b.scanner pieces
    read.1.mapError ForecastError.placeless = taken.1 ∧
    withoutProgress read.2.line.reports
      = closing taken.1 ++ taken.2.reports := by
  intro read taken
  induction pieces generalizing b with
  | nil =>
      cases fault with
      | some cause => exact ⟨rfl, rfl⟩
      | none =>
          have hfinish := LineState.finish_quiet b.consumed b.scanner b.line
          rcases hread : b.scanner.finish (LineState.see b.consumed)
              ForecastError.ofScan b.line with ⟨error | ⟨⟩, x, s⟩
          · rw [hread] at hfinish
            have htaken : taken = (.error error.placeless, x.quiet) := by
              simp only [taken, LineState.takeAll, Scanner.fed,
                Scanner.feedAll, LineState.close, hfinish]
              rfl
            have hb : read
                = (.error error, { b with line := x, scanner := s }) := by
              simp only [read, List.map_nil, List.nil_append, Option.map_none,
                Option.toList_none, readAll, finish, hread]
            rw [htaken, hb]
            exact ⟨rfl, rfl⟩
          · rw [hread] at hfinish
            have htaken : taken = (.ok (), x.quiet) := by
              simp only [taken, LineState.takeAll, Scanner.fed,
                Scanner.feedAll, LineState.close, hfinish]
              rfl
            have hb : read
                = (.ok (), report { b with line := x, scanner := s } .done) := by
              simp only [read, List.map_nil, List.nil_append, Option.map_none,
                Option.toList_none, readAll, finish, hread]
            rw [htaken, hb]
            exact ⟨rfl, rfl⟩
  | cons piece pieces ih =>
      have hfeed := LineState.feed_quiet b.consumed b.scanner b.line piece
      rcases hread : b.scanner.feed (LineState.see b.consumed)
          ForecastError.ofScan piece b.line with ⟨error | ⟨⟩, x, s⟩
      · rw [hread] at hfeed
        have htaken : taken = (.error error.placeless, x.quiet) := by
          simp only [taken, LineState.takeAll, Scanner.fed_cons, hfeed]
          rfl
        have hb : read = (.error error, { b with line := x, scanner := s }) := by
          simp only [read, List.map_cons, List.cons_append, readAll, feed,
            hread]
        rw [htaken, hb]
        exact ⟨rfl, rfl⟩
      · rw [hread] at hfeed
        have htaken : taken = x.quiet.takeAll fault s pieces := by
          simp only [taken, LineState.takeAll, Scanner.fed_cons, hfeed]
          rfl
        have hb : read = (count { b with line := x, scanner := s } size step
            piece.length).readAll size step
              (pieces.map .bytes ++ (fault.map .fault).toList) := by
          simp only [read, List.map_cons, List.cons_append, readAll, feed,
            hread]
        have hrest := ih (count { b with line := x, scanner := s } size step
          piece.length)
        rw [count_scanner, count_quiet] at hrest
        rw [htaken, hb]
        exact hrest

/-- What comes of a body depends on its bytes and on what comes behind them. -/
theorem BodyState.readAll_eq_takeBody (size step : Nat)
    (pieces : List (List UInt8)) (fault : Option Fault) :
    let read := start.readAll size step
      (pieces.map .bytes ++ (fault.map .fault).toList)
    let taken := LineState.takeBody fault pieces.flatten
    read.1.mapError ForecastError.placeless = taken.1 ∧
    withoutProgress read.2.line.reports
      = closing taken.1 ++ taken.2.reports := by
  have hread := readAll_eq_takeAll size step start pieces fault
  rw [LineState.takeBody, LineState.takeAll, ← Scanner.fed_start_eq]
  exact hread

theorem BodyState.readAll_whole (size step : Nat)
    (pieces : List (List UInt8)) :
    let read := start.readAll size step (pieces.map .bytes)
    let taken := LineState.takeBody none pieces.flatten
    read.1.mapError ForecastError.placeless = taken.1 ∧
    withoutProgress read.2.line.reports
      = closing taken.1 ++ taken.2.reports := by
  have hread := readAll_eq_takeBody size step pieces none
  rwa [Option.map_none, Option.toList_none, List.append_nil] at hread

/-- A line is read as the body is taken that its source delivers. -/
theorem readLine_eq_takeBody {source : ByteSource} {line : Line}
    {delivery : Delivery}
    (hslice : source.slice line.start line.stop = .ok delivery)
    (settings : Settings) :
    let read := readLine source settings line
    let taken := LineState.takeBody delivery.fault delivery.bytes
    read.2.mapError ForecastError.placeless = taken.1 ∧
    withoutProgress read.1
      = taken.2.reports.reverse ++ closing taken.1 := by
  obtain ⟨pieces, hdelivery, hcut, -⟩ :=
    delivery.reads_pieces settings.readSize
  obtain ⟨hresult, hreports⟩ := BodyState.readAll_eq_takeBody
    line.bodyLength settings.lineProgressStep pieces delivery.fault
  rw [hcut] at hresult hreports
  simp only [readLine, hslice, hdelivery]
  refine ⟨hresult, ?_⟩
  rw [withoutProgress, List.filter_reverse, ← withoutProgress, hreports,
    List.reverse_append, closing_reverse]

/-! ## The line -/

theorem ForecastError.ok_of_placeless {result : Except ForecastError Unit}
    (h : result.mapError placeless = .ok ()) : result = .ok () := by
  cases result with
  | ok => rfl
  | error error => cases h

theorem ForecastError.error_of_placeless {result : Except ForecastError Unit}
    {known : Nat} {message : String}
    (h : result.mapError placeless = .error (.malformedRecord known message)) :
    ∃ place, result = .error (.malformedRecord place message) := by
  cases result with
  | ok => cases h
  | error error =>
      have hplace : error.placeless = .malformedRecord known message :=
        Except.error.inj h
      cases error with
      | malformedRecord place message' =>
          rw [placeless] at hplace
          split at hplace <;>
          · cases hplace
            exact ⟨_, rfl⟩
      | invalidCdf | streamRead => cases hplace

theorem MatchesReference.of_quiet {body : Tree} {reports : List Report}
    {result : Except ForecastError Unit}
    (hresult : result.mapError ForecastError.placeless
      = (Assembler.start.acceptAll 0 (tripParts body)).2)
    (hreports : withoutProgress reports
      = (Assembler.start.acceptAll 0 (tripParts body)).1.map .outcome
        ++ closing (Assembler.start.acceptAll 0 (tripParts body)).2) :
    MatchesReference body reports result := by
  unfold MatchesReference
  rcases hread : Assembler.start.acceptAll 0 (tripParts body) with
    ⟨outcomes, error | ⟨⟩⟩
  · rw [hread] at hresult hreports
    obtain ⟨message, -, rfl⟩ :=
      Assembler.acceptAll_error (congrArg Prod.snd hread)
    obtain ⟨place, hplace⟩ := ForecastError.error_of_placeless hresult
    exact ⟨⟨place, message, rfl, hplace⟩,
      hreports.trans (List.append_nil _)⟩
  · rw [hread] at hresult hreports
    exact ⟨ForecastError.ok_of_placeless hresult, hreports⟩

theorem BodyState.readAll_matchesReference {body : List UInt8} {tree : Tree}
    (hok : (Scanner.transcript [body]).1 = .ok ())
    (hevents : (Scanner.transcript [body]).2 = tree.events 0) (size step : Nat)
    {pieces : List (List UInt8)} (hpieces : pieces.flatten = body) :
    let read := BodyState.start.readAll size step (pieces.map .bytes)
    MatchesReference tree read.2.line.reports.reverse read.1 := by
  intro read
  obtain ⟨hresult, hreports⟩ := readAll_whole size step pieces
  obtain ⟨hend, htold⟩ := LineState.hear_tree tree
  have htaken : LineState.takeBody none pieces.flatten
      = Scanner.hear (LineState.see 0) LineState.start (tree.events 0) := by
    rw [LineState.takeBody_eq_scan, hpieces, ← hevents,
      ← Scanner.scan_of_transcript hok]
  rw [htaken] at hresult hreports
  rw [hend] at hresult
  rw [hend, htold] at hreports
  refine MatchesReference.of_quiet hresult ?_
  calc withoutProgress read.2.line.reports.reverse
      = (withoutProgress read.2.line.reports).reverse := List.filter_reverse ..
    _ = _ := by
      rw [hreports, List.reverse_append, List.reverse_reverse,
        closing_reverse]

/-- A body that is accepted as a whole has a tree, and reading it does what the
tree asks for: in whatever pieces it arrives, and from whatever source, read
through whatever buffer. -/
theorem readLine_matchesReference {body : List UInt8} (h : Scanner.Accepts body) :
    ∃ tree, Tree.ofText? body = some tree ∧
      (∀ (size step : Nat) (pieces : List (List UInt8)),
        pieces.flatten = body →
          let read := BodyState.start.readAll size step (pieces.map .bytes)
          MatchesReference tree read.2.line.reports.reverse read.1) ∧
      (∀ (source : ByteSource) (settings : Settings) (line : Line),
        source.slice line.start line.stop = .ok ⟨body, none⟩ →
          let read := readLine source settings line
          MatchesReference tree read.1 read.2) := by
  obtain ⟨tree, htree, hevents⟩ := h.tree
  have hpieces (size step : Nat) (pieces : List (List UInt8))
      (hcut : pieces.flatten = body) :=
    BodyState.readAll_matchesReference h.1 hevents size step hcut
  refine ⟨tree, htree, hpieces, fun source settings line hslice => ?_⟩
  obtain ⟨pieces, hdelivery, hcut, -⟩ :=
    Delivery.reads_pieces ⟨body, none⟩ settings.readSize
  rw [Option.map_none, Option.toList_none, List.append_nil] at hdelivery
  simp only [readLine, hslice, hdelivery]
  exact hpieces _ _ pieces hcut

theorem memory_slice_whole (bytes : List UInt8) :
    (ByteSource.memory bytes).slice 0 bytes.length = .ok ⟨bytes, none⟩ := by
  simp [ByteSource.memory]

/-- A body with a trip, its edges and a station that does not read. -/
def tripThenStation : List UInt8 :=
  ("\x7b\"a\":\x7b\"b\":[\x7b\"trip\":\x7b\x7d,\"edges\":[],"
    ++ "\"primary_station\":\x7b\x7d\x7d]\x7d\x7d").toUTF8.toList

theorem readLine_matchesReference_of_station :
    Scanner.Accepts tripThenStation ∧
    ∃ tree, Tree.ofText? tripThenStation = some tree ∧
      let read := readLine (.memory tripThenStation) .default
        (.between 0 tripThenStation.length)
      MatchesReference tree read.1 read.2 := by
  have haccepts : Scanner.Accepts tripThenStation := by decide +kernel
  refine ⟨haccepts, ?_⟩
  obtain ⟨tree, htree, -, hline⟩ := readLine_matchesReference haccepts
  exact ⟨tree, htree, hline _ _ _ (memory_slice_whole tripThenStation)⟩

end Ridership.Forecast

import Ridership.Proofs.SplitterProgress
import Ridership.Proofs.Truncation

/-!
# Which reads of a body were taken

The loop over the reads of a body ends in one of four ways: the bytes come to
their end and are complete, or are not; a read brings a fault; or a piece is
refused. In each of them there are pieces that were taken before, one after
another and without a failure, and it is they that the reports and the counters
tell of. So a reading is cut in two, the pieces that were taken
(`BodyState.Took`) and what became of the others (`BodyState.Ends`).

What was taken adds up. The bytes read are those of the pieces, scanner and line
stand where these bytes lead, and progress was told of their ends by the rule
that splitters go by as well (`BodyState.Took.places`). A piece is told behind
the outcomes it completed, and before any other.
-/

namespace Ridership.Forecast

open Json (Scanner)
open Storage (Fault Read endsOf endsOf_concat faultOf piecesOf)

/-! ## Pieces taken, and the end -/

/-- A body that has taken pieces, one after another. -/
inductive BodyState.Took (size step : Nat) :
    List (List UInt8) → BodyState → Prop
  | start : Took size step [] .start
  | piece {taken : List (List UInt8)} {b b' : BodyState}
      {piece : List UInt8} (h : Took size step taken b)
      (hfeed : b.feed piece = (.ok (), b')) :
      Took size step (taken ++ [piece]) (b'.count size step piece.length)

/-- How a reading ends that has taken all it could, with the pieces that are
left and what would have come behind them. -/
inductive BodyState.Ends (b : BodyState) : List (List UInt8) → Option Fault →
    Except ForecastError Unit × BodyState → Prop
  | complete {b' : BodyState} (h : b.finish = (.ok (), b')) :
      Ends b [] none (.ok (), b'.report .done)
  | incomplete {b' : BodyState} {error : ForecastError}
      (h : b.finish = (.error error, b')) : Ends b [] none (.error error, b')
  | fault {cause : Fault} :
      Ends b [] (some cause) (.error (.streamRead cause), b)
  | refused {b' : BodyState} {piece : List UInt8} {rest : List (List UInt8)}
      {fault : Option Fault} {error : ForecastError}
      (h : b.feed piece = (.error error, b')) :
      Ends b (piece :: rest) fault (.error error, b')

/-- Every reading takes pieces, and then ends. -/
theorem BodyState.readAll_ends {size step : Nat} {b : BodyState}
    {before : List (List UInt8)} (h : Took size step before b)
    (reads : List Read) :
    ∃ taken rest c, piecesOf reads = taken ++ rest ∧
      Took size step (before ++ taken) c ∧
      c.Ends rest (faultOf reads) (b.readAll size step reads) := by
  induction reads generalizing before b with
  | nil =>
      refine ⟨[], [], b, rfl, by rwa [List.append_nil], ?_⟩
      rw [readAll]
      rcases hfinish : b.finish with ⟨error | ⟨⟩, b'⟩
      · exact .incomplete hfinish
      · exact .complete hfinish
  | cons read reads ih =>
      cases read with
      | fault cause =>
          exact ⟨[], [], b, rfl, by rwa [List.append_nil], .fault⟩
      | bytes piece =>
          rw [readAll]
          rcases hfeed : b.feed piece with ⟨error | ⟨⟩, b'⟩
          · exact ⟨[], piece :: piecesOf reads, b, rfl, by
              rwa [List.append_nil], .refused hfeed⟩
          · obtain ⟨taken, rest, c, hpieces, htook, hends⟩ :=
              ih (.piece h hfeed)
            refine ⟨piece :: taken, rest, c, ?_, ?_, hends⟩
            · rw [piecesOf, hpieces, List.cons_append]
            · rwa [List.append_cons]

/-! ## What a piece does to the counters and the reports -/

section

variable {b b' : BodyState} {piece : List UInt8} {step : Nat}
  {result : Except ForecastError Unit}

theorem BodyState.feed_counts (h : b.feed piece = (result, b')) :
    b'.consumed = b.consumed ∧ b'.lastProgress = b.lastProgress := by
  obtain rfl := congrArg Prod.snd h
  exact ⟨rfl, rfl⟩

/-- A piece reports outcomes and nothing else. -/
theorem BodyState.feed_outcomes (h : b.feed piece = (result, b')) :
    ∃ outcomes : List Outcome,
      b'.line.reports = outcomes.map .outcome ++ b.line.reports := by
  obtain rfl := congrArg Prod.snd h
  exact LineState.drain_outcomes b.consumed b.line false
    (b.scanner.receive piece)

theorem BodyState.finish_outcomes (h : b.finish = (result, b')) :
    ∃ outcomes : List Outcome,
      b'.line.reports = outcomes.map .outcome ++ b.line.reports := by
  obtain rfl := congrArg Prod.snd h
  show ∃ outcomes : List Outcome, (b.scanner.finish
    (LineState.see b.consumed) ForecastError.ofScan b.line).2.1.reports = _
  unfold Scanner.finish
  split
  · exact LineState.drain_outcomes b.consumed b.line true b.scanner
  · exact ⟨[], rfl⟩

theorem BodyState.count_consumed (size length : Nat) :
    (b.count size step length).consumed = b.consumed + length := by
  unfold count
  dsimp only
  split <;> rfl

/-- Where progress is due it is the last thing reported. -/
theorem BodyState.count_of_due (size : Nat) {length : Nat}
    (h : step ≤ b.consumed + length - b.lastProgress) :
    (b.count size step length).lastProgress = b.consumed + length ∧
    (b.count size step length).line.reports
      = .progress (b.consumed + length) size :: b.line.reports := by
  rw [count, if_pos h]
  exact ⟨rfl, rfl⟩

theorem BodyState.count_of_early (size : Nat) {length : Nat}
    (h : ¬ step ≤ b.consumed + length - b.lastProgress) :
    (b.count size step length).lastProgress = b.lastProgress ∧
    (b.count size step length).line.reports = b.line.reports := by
  rw [count, if_neg h]
  exact ⟨rfl, rfl⟩

end

/-! ## What was taken adds up -/

/-- The place that a report tells progress of. -/
def Report.place? : Report → Option Nat
  | .progress consumed _ => some consumed
  | _ => none

theorem filterMap_place?_outcomes (outcomes : List Outcome) :
    (outcomes.map Report.outcome).filterMap Report.place? = [] := by
  rw [List.filterMap_map, List.filterMap_eq_nil_iff]
  intro o _
  rfl

section

variable {size step : Nat} {taken : List (List UInt8)} {b : BodyState}

theorem BodyState.Took.consumed_eq (h : Took size step taken b) :
    b.consumed = taken.flatten.length := by
  induction h with
  | start => rfl
  | piece h hfeed ih =>
      rw [count_consumed, (feed_counts hfeed).1, ih, List.flatten_append,
        List.length_append]
      simp

/-- Scanner and line stand where the bytes lead, had they come at once. -/
theorem BodyState.Took.feed_start (h : Took size step taken b) :
    Scanner.start.feed (LineState.see 0) ForecastError.ofScan taken.flatten
      LineState.start = (.ok (), b.line.quiet, b.scanner) := by
  induction h with
  | start =>
      rw [Scanner.feed_eq, List.flatten_nil, Scanner.receive_nil,
        Scanner.drain_of_idle rfl]
      rfl
  | piece h hfeed ih =>
      rw [count_scanner, count_quiet, List.flatten_append,
        List.flatten_singleton]
      exact BodyState.feed_start ih hfeed

/-- Progress was told of the pieces by the rule. -/
theorem BodyState.Took.places (h : Took size step taken b) :
    b.line.reports.reverse.filterMap Report.place?
        = toldOf step (endsOf 0 taken) ∧
    b.lastProgress = (toldOf step (endsOf 0 taken)).getLastD 0 := by
  induction h with
  | start => exact ⟨rfl, rfl⟩
  | @piece taken b b' piece h hfeed ih =>
      obtain ⟨hplaces, hlast⟩ := ih
      obtain ⟨hconsumed, hkept⟩ := feed_counts hfeed
      obtain ⟨outcomes, hreports⟩ := feed_outcomes hfeed
      have hsame : b'.line.reports.reverse.filterMap Report.place?
          = toldOf step (endsOf 0 taken) := by
        rw [hreports, List.reverse_append, List.filterMap_append, hplaces,
          ← List.map_reverse, filterMap_place?_outcomes, List.append_nil]
      have hplace : b'.consumed + piece.length
          = 0 + (taken.flatten.length + piece.length) := by
        rw [hconsumed, h.consumed_eq, Nat.zero_add]
      rw [endsOf_concat, toldOf, List.foldl_concat, ← toldOf, ← hplace,
        tellEnd, ← hlast, ← hkept]
      split
      · next hdue =>
          obtain ⟨htold, hreport⟩ := count_of_due size hdue
          rw [htold, hreport, List.reverse_cons, List.filterMap_append, hsame,
            List.getLastD_concat]
          exact ⟨rfl, rfl⟩
      · next hearly =>
          obtain ⟨htold, hreport⟩ := count_of_early size hearly
          rw [htold, hreport]
          exact ⟨hsame, hkept.trans hlast⟩

/-- An entry of two lists joined is one of the first, or of the second. -/
theorem append_eq_split {α : Type} {first second before after : List α} {x : α}
    (h : first ++ second = before ++ x :: after) :
    (∃ rest, first = before ++ x :: rest) ∨
    ∃ more, before = first ++ more ∧ second = more ++ x :: after := by
  rcases List.append_eq_append_iff.mp h with ⟨more, hmore⟩ | ⟨rest, hfirst, hx⟩
  · exact .inr ⟨more, hmore⟩
  · cases rest with
    | nil => exact .inr ⟨[], by simpa using hfirst.symm, hx.symm⟩
    | cons y rest =>
        obtain ⟨rfl, -⟩ := List.cons.inj hx
        exact .inl ⟨rest, hfirst⟩

/-- Where a reading tells a piece: the piece ends there, and what was reported
by then are the outcomes of the bytes up to its end. -/
structure TellsPiece (size : Nat) (pieces : List (List UInt8))
    (before : List Report) (place total : Nat) : Prop where
  total_eq : total = size
  split : ∃ taken piece rest, pieces = taken ++ piece :: rest ∧
    place = taken.flatten.length + piece.length ∧
    outcomesOf before = outcomesOf
      (LineState.takeBody none (taken ++ [piece]).flatten).2.reports.reverse

theorem TellsPiece.append {pieces : List (List UInt8)} {before : List Report}
    {place total : Nat} (h : TellsPiece size pieces before place total)
    (more : List (List UInt8)) :
    TellsPiece size (pieces ++ more) before place total := by
  obtain ⟨htotal, taken, piece, rest, rfl, hplace, houtcomes⟩ := h
  refine ⟨htotal, taken, piece, rest ++ more, ?_, hplace, houtcomes⟩
  rw [List.append_assoc, List.cons_append]

theorem outcomesOf_quiet (x : LineState) :
    outcomesOf x.reports.reverse = outcomesOf x.quiet.reports.reverse := by
  show _ = outcomesOf (withoutProgress x.reports).reverse
  rw [withoutProgress, ← List.filter_reverse, ← withoutProgress,
    outcomesOf_withoutProgress]

theorem BodyState.Took.tellsPiece (h : Took size step taken b)
    {before after : List Report} {place total : Nat}
    (hsplit : b.line.reports.reverse
      = before ++ .progress place total :: after) :
    TellsPiece size taken before place total := by
  induction h generalizing after with
  | start =>
      have hnil : [] = before ++ Report.progress place total :: after := hsplit
      simp at hnil
  | @piece taken b b' piece h hfeed ih =>
      obtain ⟨outcomes, hreports⟩ := feed_outcomes hfeed
      -- What the piece reports itself is no progress.
      have hold {after : List Report} (hsplit : b'.line.reports.reverse
          = before ++ .progress place total :: after) :
          TellsPiece size (taken ++ [piece]) before place total := by
        rw [hreports, List.reverse_append] at hsplit
        rcases append_eq_split hsplit with ⟨rest, hbefore⟩ | ⟨more, -, hmore⟩
        · exact (ih hbefore).append [piece]
        · have hmem : Report.progress place total
              ∈ (outcomes.map Report.outcome).reverse := by simp [hmore]
          simp at hmem
      by_cases hdue : step ≤ b'.consumed + piece.length - b'.lastProgress
      · rw [(count_of_due size hdue).2, List.reverse_cons] at hsplit
        rcases append_eq_split hsplit with
          ⟨rest, hbefore⟩ | ⟨more, hbefore, hlast⟩
        · exact hold hbefore
        · obtain ⟨rfl, hprogress, -⟩ : more = [] ∧
              Report.progress (b'.consumed + piece.length) size
                = .progress place total ∧ after = [] := by
            cases more with
            | nil => simpa using hlast
            | cons y more => simp at hlast
          cases hprogress
          have hbody : (taken ++ [piece]).flatten = taken.flatten ++ piece := by
            rw [List.flatten_append, List.flatten_singleton]
          refine ⟨rfl, taken, piece, [], rfl, ?_, ?_⟩
          · rw [(feed_counts hfeed).1, h.consumed_eq]
          · rw [hbody, LineState.takeBody_of_feed
              (BodyState.feed_start h.feed_start hfeed), hbefore,
              List.append_nil]
            exact outcomesOf_quiet b'.line
      · rw [(count_of_early size hdue).2] at hsplit
        exact hold hsplit

end

end Ridership.Forecast

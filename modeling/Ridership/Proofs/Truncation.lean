import Ridership.Proofs.LineReference
import Ridership.Proofs.TextEnd

/-!
# A body that ends early only reports less

The first bytes of a body lead to the first of its outcomes. As long as there
are bytes, both readings are one and the same, and from there on the longer one
only adds to what was reported (`takeAll_adds`). So all depends on the end of
the shorter one, where the scanner is let go on in another mode and may tell
events that the longer text does not have.

They do no harm. A sub-tree is completed by the event that closes its
container. A scanner that is spent tells one number at most
(`Scanner.Spent.drain_ending`), and a number closes nothing. A text that is
over before it could begin has two bytes at most, and a sub-tree takes three
events from the start, the key, the opening and the closing
(`Selector.run_short`).
-/

namespace Ridership.Json

/-! ## Events that complete nothing -/

section

variable {wanted : String → Nat → Bool} {e : Event} {depth : Nat}

theorem Selector.run_single {s : Selector}
    (h : (s.accept wanted e depth).2 = none) :
    (s.run wanted [(e, depth)]).2 = [] := by
  rcases haccept : s.accept wanted e depth with ⟨s', found⟩
  rw [haccept] at h
  obtain rfl : found = none := h
  rw [run_cons haccept]
  rfl

theorem Selector.accept_number (s : Selector) (literal : String) :
    (s.accept wanted (.number literal) depth).2 = none := by
  cases s with
  | watching armed => rfl
  | capturing c => rfl

/-- Before a container has been opened there is none to be closed. -/
theorem Selector.accept_watching (armed : Option String) :
    ((watching armed).accept wanted e depth).2 = none := by
  cases e <;> rfl

/-- Where no key came just before, no container is kept. -/
theorem Selector.accept_start (wanted : String → Nat → Bool) (e : Event)
    (depth : Nat) :
    ∃ armed, start.accept wanted e depth = (watching armed, none) := by
  cases e <;> exact ⟨_, rfl⟩

/-- From the start a sub-tree takes three events. -/
theorem Selector.run_short {told : List (Event × Nat)}
    (h : told.length ≤ 2) : (start.run wanted told).2 = [] := by
  match told with
  | [] => rfl
  | [(e, depth)] =>
      obtain ⟨armed, hfirst⟩ := accept_start wanted e depth
      exact run_single (congrArg Prod.snd hfirst)
  | [(e, depth), (e', depth')] =>
      obtain ⟨armed, hfirst⟩ := accept_start wanted e depth
      rw [run_cons hfirst]
      exact run_single (accept_watching armed)
  | _ :: _ :: _ :: _ => simp at h

end

end Ridership.Json

namespace Ridership.Forecast

open Json (Event Scanner Selector)
open Log (Line)
open Storage (ByteSource Fault)

/-! ## The end of a line -/

/-- Where the bytes of a body were taken without a failure, the end completes
no sub-tree. -/
theorem LineState.finish_finds {body : List UInt8} {x : LineState}
    {s : Scanner}
    (h : Scanner.start.feed (see 0) ForecastError.ofScan body start
      = (.ok (), x, s)) :
    (x.selector.run isTripKey (s.finish Scanner.record id []).2.1).2 = [] := by
  unfold Scanner.finish
  split
  · rcases Scanner.feed_start_cases h with ⟨hlen, rfl, rfl⟩ | hspent
    · -- Nothing was told before, so the selector is where it started.
      refine Selector.run_short ?_
      have htold := Scanner.length_drain true (Scanner.start.receive body) []
      have hload : (Scanner.start.receive body).load = body.length := rfl
      rw [hload, List.length_nil] at htold
      omega
    · rcases hspent.drain_ending [] with htold | ⟨literal, depth, htold⟩
      · rw [htold]
        rfl
      · rw [htold]
        exact Selector.run_single (Selector.accept_number x.selector literal)
  · rfl

/-- An end that completes no sub-tree is refused for the text alone, and reports
nothing. -/
theorem LineState.finish_unfound {offset : Nat} {x : LineState} {s : Scanner}
    (h : (x.selector.run isTripKey
      (s.finish Scanner.record id []).2.1).2 = []) :
    (s.finish (see offset) ForecastError.ofScan x).1
        = (s.finish Scanner.record id []).1.mapError ForecastError.ofScan ∧
      (s.finish (see offset) ForecastError.ofScan x).2.1.reports
        = x.reports := by
  unfold Scanner.finish at h ⊢
  split
  · next hstarted =>
      rw [if_pos hstarted] at h
      obtain ⟨result, told, s', hrecord, hears⟩ :=
        Scanner.drain_hears (see offset) ForecastError.ofScan true s []
      rw [hrecord, List.nil_append] at h
      obtain ⟨hend, hreports⟩ := hear_see offset x told
      rw [h] at hend hreports
      have hheard : Scanner.hear (see offset) x told
          = (.ok (), (Scanner.hear (see offset) x told).2) := Prod.ext hend rfl
      rw [(hears x).1 _ hheard, hrecord]
      exact ⟨rfl, hreports⟩
  · exact ⟨rfl, rfl⟩

/-! ## What more bytes add -/

/-- An event adds outcomes to what was reported, one at most, and
nothing else. -/
theorem LineState.see_outcomes (offset : Nat) (x : LineState) (e : Event)
    (depth : Nat) : ∃ outcomes : List Outcome,
      (see offset x e depth).2.reports
        = outcomes.map .outcome ++ x.reports := by
  rcases hselect : x.selector.accept isTripKey e depth with
    ⟨selector, _ | found⟩
  · have hsee : (see offset x e depth).2.reports = x.reports := by
      rw [see, hselect]
    exact ⟨[], hsee⟩
  · rcases haccept : x.assembler.accept found offset with
      ⟨assembler, error | _ | o⟩
    · have hsee : (see offset x e depth).2.reports = x.reports := by
        simp only [see, hselect, haccept]
      exact ⟨[], hsee⟩
    · have hsee : (see offset x e depth).2.reports = x.reports := by
        simp only [see, hselect, haccept]
      exact ⟨[], hsee⟩
    · have hsee : (see offset x e depth).2.reports
          = .outcome o :: x.reports := by
        simp only [see, hselect, haccept]
      exact ⟨[o], hsee⟩

theorem LineState.drain_outcomes (offset : Nat) (x : LineState)
    (ending : Bool) (s : Scanner) : ∃ outcomes : List Outcome,
      (s.drain (see offset) ForecastError.ofScan ending x).2.1.reports
        = outcomes.map .outcome ++ x.reports := by
  refine (Scanner.drain_keeps (P := fun y : LineState =>
      ∃ outcomes : List Outcome,
        y.reports = outcomes.map .outcome ++ x.reports)
    (Q := fun _ => True) ?_ (fun _ => trivial) ending s ⟨[], rfl⟩).1
  intro y e depth hy
  obtain ⟨outcomes, hy⟩ := hy
  obtain ⟨more, hmore⟩ := see_outcomes offset y e depth
  refine ⟨⟨more ++ outcomes, ?_⟩, fun _ _ => trivial⟩
  rw [hmore, hy, List.map_append, List.append_assoc]

theorem LineState.drain_adds (offset : Nat) (x : LineState) (ending : Bool)
    (s : Scanner) : x.reports
      <:+ (s.drain (see offset) ForecastError.ofScan ending x).2.1.reports := by
  obtain ⟨outcomes, hreports⟩ := drain_outcomes offset x ending s
  exact ⟨_, hreports.symm⟩

theorem LineState.close_adds (fault : Option Fault) (x : LineState)
    (s : Scanner) : x.reports <:+ (x.close fault s).2.reports := by
  cases fault with
  | some cause => exact List.suffix_refl _
  | none =>
      show x.reports
        <:+ (s.finish (see 0) ForecastError.ofScan x).2.1.reports
      unfold Scanner.finish
      split
      · exact drain_adds 0 x true s
      · exact List.suffix_refl _

theorem LineState.takeAll_adds (fault : Option Fault) (x : LineState)
    (s : Scanner) (pieces : List (List UInt8)) :
    x.reports <:+ (x.takeAll fault s pieces).2.reports := by
  induction pieces generalizing x s with
  | nil => exact close_adds fault x s
  | cons piece pieces ih =>
      have hfeed : x.reports
          <:+ (s.feed (see 0) ForecastError.ofScan piece x).2.1.reports :=
        drain_adds 0 x false (s.receive piece)
      rw [takeAll, Scanner.fed_cons]
      rcases hstep : s.feed (see 0) ForecastError.ofScan piece x with
        ⟨error | ⟨⟩, y, t⟩
      · rw [hstep] at hfeed
        exact hfeed
      · rw [hstep] at hfeed
        exact hfeed.trans (ih y t)

/-- Bytes taken without a failure have reported all that they report as a
whole body. -/
theorem LineState.takeBody_of_feed {body : List UInt8} {x : LineState}
    {s : Scanner}
    (h : Scanner.start.feed (see 0) ForecastError.ofScan body start
      = (.ok (), x, s)) : (takeBody none body).2.reports = x.reports := by
  rw [takeBody, takeAll, Scanner.fed_cons, h]
  exact (finish_unfound (finish_finds h)).2

/-- More bytes add to what the bytes before them have reported, though those
were taken for a whole body. -/
theorem LineState.takeBody_append (head tail : List UInt8) :
    (takeBody none head).2.reports
      <:+ (takeBody none (head ++ tail)).2.reports := by
  have hstart : Scanner.start.unended := by simp [Scanner.unended, Scanner.start]
  have hsplit : takeBody none (head ++ tail)
      = start.takeAll none .start [head, tail] := by
    rw [takeBody, takeAll, takeAll, Scanner.fed_join hstart]
  rcases hfeed : Scanner.start.feed (see 0) ForecastError.ofScan head start
    with ⟨error | ⟨⟩, x, s⟩
  · -- What stops the shorter reading stops the longer one just there.
    have hhead : takeBody none head = (.error error, x) := by
      rw [takeBody, takeAll, Scanner.fed_cons, hfeed]
    have hboth : takeBody none (head ++ tail) = (.error error, x) := by
      rw [hsplit, takeAll, Scanner.fed_cons, hfeed]
    exact hhead.trans hboth.symm ▸ List.suffix_refl _
  · have hboth : takeBody none (head ++ tail) = x.takeAll none s [tail] := by
      rw [hsplit, takeAll, Scanner.fed_cons, hfeed]
      rfl
    rw [takeBody_of_feed hfeed, hboth]
    exact takeAll_adds none x s [tail]

/-! ## Bodies under way -/

/-- A body whose pieces so far were all taken. -/
inductive BodyState.UnderWay (size step : Nat) : BodyState → Prop
  | start : UnderWay size step .start
  | piece {b b' : BodyState} {bytes : List UInt8} (h : UnderWay size step b)
      (hfeed : b.feed bytes = (.ok (), b')) :
      UnderWay size step (b'.count size step bytes.length)

/-- A piece leads from where the bytes before it lead to where all of them do,
had they come at once. -/
theorem BodyState.feed_start {b b' : BodyState} {body bytes : List UInt8}
    {result : Except ForecastError Unit}
    (hbody : Scanner.start.feed (LineState.see 0) ForecastError.ofScan body
      LineState.start = (.ok (), b.line.quiet, b.scanner))
    (hfeed : b.feed bytes = (result, b')) :
    Scanner.start.feed (LineState.see 0) ForecastError.ofScan (body ++ bytes)
      LineState.start
        = (result.mapError ForecastError.placeless, b'.line.quiet,
          b'.scanner) := by
  rw [Scanner.feed_eq] at hbody
  have hjoin := Scanner.drain_receive
    (by simp [Scanner.unended, Scanner.receive, Scanner.start]) hbody false
    bytes
  have hpiece := LineState.feed_quiet b.consumed b.scanner b.line bytes
  rcases hread : b.scanner.feed (LineState.see b.consumed)
      ForecastError.ofScan bytes b.line with ⟨result, x, s⟩
  rw [feed, hread] at hfeed
  obtain ⟨rfl, rfl⟩ := Prod.mk.inj hfeed
  rw [hread] at hpiece
  rw [Scanner.feed_eq, ← Scanner.receive_receive, hjoin, ← Scanner.feed_eq,
    hpiece]

/-- A body under way stands where its bytes lead, had they come at once. -/
theorem BodyState.UnderWay.feed_start {size step : Nat} {b : BodyState}
    (h : b.UnderWay size step) :
    ∃ body, Scanner.start.feed (LineState.see 0) ForecastError.ofScan body
      LineState.start = (.ok (), b.line.quiet, b.scanner) := by
  induction h with
  | start =>
      refine ⟨[], ?_⟩
      rw [Scanner.feed_eq, Scanner.receive_nil, Scanner.drain_of_idle rfl]
      rfl
  | @piece b b' bytes _ hfeed ih =>
      obtain ⟨body, hbody⟩ := ih
      refine ⟨body ++ bytes, ?_⟩
      rw [count_scanner, count_quiet]
      exact BodyState.feed_start hbody hfeed

/-! ## Outcomes -/

/-- The outcomes among some reports. -/
def outcomesOf (reports : List Report) : List Outcome :=
  reports.filterMap fun
    | .outcome o => some o
    | _ => none

theorem outcomesOf_withoutProgress (reports : List Report) :
    outcomesOf (withoutProgress reports) = outcomesOf reports :=
  filterMap_withoutProgress (fun _ _ => rfl) reports

theorem outcomesOf_closing (result : Except ForecastError Unit) :
    outcomesOf (closing result) = [] := by
  rcases result with _ | _ <;> rfl

theorem BodyState.outcomesOf_readAll (size step : Nat)
    (pieces : List (List UInt8)) :
    outcomesOf (start.readAll size step
        (pieces.map .bytes)).2.line.reports.reverse
      = outcomesOf (LineState.takeBody none
          pieces.flatten).2.reports.reverse := by
  obtain ⟨-, hreports⟩ := readAll_whole size step pieces
  have htaken := outcomesOf_withoutProgress
    (start.readAll size step (pieces.map .bytes)).2.line.reports
  rw [hreports, outcomesOf, List.filterMap_append, ← outcomesOf, ← outcomesOf,
    outcomesOf_closing, List.nil_append] at htaken
  rw [outcomesOf, outcomesOf, List.filterMap_reverse, List.filterMap_reverse,
    ← outcomesOf, ← outcomesOf, htaken]

theorem outcomesOf_readLine {source : ByteSource} {line : Line}
    {body : List UInt8}
    (hslice : source.slice line.start line.stop = .ok ⟨body, none⟩)
    (settings : Settings) :
    outcomesOf (readLine source settings line).1
      = outcomesOf (LineState.takeBody none body).2.reports.reverse := by
  obtain ⟨-, hreports⟩ := readLine_eq_takeBody hslice settings
  rw [← outcomesOf_withoutProgress, hreports, outcomesOf,
    List.filterMap_append, ← outcomesOf, ← outcomesOf, outcomesOf_closing,
    List.append_nil]

theorem outcomesOf_take (body : List UInt8) (n : Nat) :
    outcomesOf (LineState.takeBody none (body.take n)).2.reports.reverse
      <+: outcomesOf (LineState.takeBody none body).2.reports.reverse := by
  have hadds := LineState.takeBody_append (body.take n) (body.drop n)
  rw [List.take_append_drop] at hadds
  exact (List.reverse_prefix.mpr hadds).filterMap _

/-- The first bytes of a body, read as a body of their own, have the first of
its outcomes: whatever the bytes are and wherever they are cut off, in whatever
pieces both arrive, and from whatever sources, read through whatever buffers.
For wherever a body ends, its end completes no sub-tree and reports no
outcome. -/
theorem outcomesOf_truncated (body : List UInt8) (n : Nat) :
    (∀ (size step size' step' : Nat) (pieces pieces' : List (List UInt8)),
      pieces.flatten = body.take n → pieces'.flatten = body →
        outcomesOf (BodyState.start.readAll size step
            (pieces.map .bytes)).2.line.reports.reverse
          <+: outcomesOf (BodyState.start.readAll size' step'
            (pieces'.map .bytes)).2.line.reports.reverse) ∧
    (∀ (source source' : ByteSource) (settings settings' : Settings)
      (line line' : Line),
      source.slice line.start line.stop = .ok ⟨body.take n, none⟩ →
      source'.slice line'.start line'.stop = .ok ⟨body, none⟩ →
        outcomesOf (readLine source settings line).1
          <+: outcomesOf (readLine source' settings' line').1) ∧
    (∀ (size step : Nat) (b : BodyState), b.UnderWay size step →
      (b.line.selector.run isTripKey
        (b.scanner.finish Scanner.record id []).2.1).2 = [] ∧
      b.finish.2.line.reports = b.line.reports) := by
  refine ⟨?_, ?_, ?_⟩
  · intro size step size' step' pieces pieces' hcut hwhole
    rw [BodyState.outcomesOf_readAll, BodyState.outcomesOf_readAll, hcut,
      hwhole]
    exact outcomesOf_take body n
  · intro source source' settings settings' line line' hcut hwhole
    rw [outcomesOf_readLine hcut, outcomesOf_readLine hwhole]
    exact outcomesOf_take body n
  · intro size step b h
    obtain ⟨taken, hfeed⟩ := h.feed_start
    have hquiet := LineState.finish_finds hfeed
    have hfinds : (b.line.selector.run isTripKey
        (b.scanner.finish Scanner.record id []).2.1).2 = [] := hquiet
    exact ⟨hfinds, (LineState.finish_unfound hfinds).2⟩

/-- The body breaks off behind the edges of its trip, which were
reported by then. -/
theorem outcomesOf_truncated_of_station :
    let cut := tripThenStation.take 32
    let outcomes := fun body : List UInt8 =>
      outcomesOf (readLine (.memory body) .default (.between 0 body.length)).1
    let b := (BodyState.start.feed cut).2.count 58 1 cut.length
    (outcomes cut).length = 1 ∧ outcomes cut <+: outcomes tripThenStation ∧
      b.finish.2.line.reports = b.line.reports := by
  intro cut outcomes b
  obtain ⟨-, hread, hfinish⟩ := outcomesOf_truncated tripThenStation 32
  have hfed : (BodyState.start.feed cut).1.isOk = true := by decide +kernel
  have hfeed : BodyState.start.feed cut
      = (.ok (), (BodyState.start.feed cut).2) := by
    rcases h : BodyState.start.feed cut with ⟨error | ⟨⟩, b'⟩
    · rw [h] at hfed
      cases hfed
    · rfl
  have hunder : b.UnderWay 58 1 := .piece .start hfeed
  refine ⟨by decide +kernel, ?_, (hfinish 58 1 b hunder).2⟩
  exact hread _ _ .default .default _ _ (memory_slice_whole cut)
    (memory_slice_whole tripThenStation)

end Ridership.Forecast

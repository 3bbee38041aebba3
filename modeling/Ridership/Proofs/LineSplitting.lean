import Ridership.Log.Splitter
import Ridership.Proofs.Deliveries
import Ridership.Proofs.Segments

/-!
# Lines found read by read

A splitter sees a log through a window that moves at the will of the reads, and
stops between any two events. What it tells does not show any of this. At every
moment there is a text before it: the line under way, from its first byte on,
and all that the reads still bring. A call either leaves this text as it is or
takes the first segment off it, and tells just this segment.

`Splitter.Faces` is that view of a splitter, and `Splitter.Step` all that a call
can do with it. The counters of a splitter occur in the first only, the order
of its reads and lines in the second only; a run is then an induction over
steps that knows of neither (`Splitter.Faces.run`).

After a fault the tail of the text is not told, for it may go on. So what is
told of a text depends on what comes after it, and on nothing else.
-/

namespace Ridership.Log

open Forecast (ForecastError)
open Storage (Fault Read bytesOf faultOf)

/-! ## What is to be told of a text -/

/-- The line of a segment that begins at a place. -/
def RawLine.ofSegment (leadLimit start : Nat) (segment : List UInt8) :
    RawLine :=
  ⟨.between start (start + segment.length), segment.take leadLimit⟩

/-- The lines of segments that follow one another from a place on. -/
def RawLine.ofSegments (leadLimit start : Nat) :
    List (List UInt8) → List RawLine
  | [] => []
  | segment :: rest =>
      .ofSegment leadLimit start segment
        :: ofSegments leadLimit (start + segment.length + 1) rest

/-- The segments that are told of a text before its end, or before a fault. -/
def segmentsTold (text : List UInt8) : Option Fault → List (List UInt8)
  | none => segments text
  | some _ => closedSegments text

/-- How a run ends that has come to the end of a log, or to a fault. -/
def endOf : Option Fault → Except ForecastError Unit
  | none => .ok ()
  | some f => .error (.streamRead f)

/-- The line that an event tells. -/
def SplitEvent.line? : SplitEvent → Option RawLine
  | .progress _ _ => none
  | .line raw => some raw

theorem segmentsTold_line {segment : List UInt8} (h : lineEnd ∉ segment)
    (rest : List UInt8) (fault : Option Fault) :
    segmentsTold (segment ++ lineEnd :: rest) fault
      = segment :: segmentsTold rest fault := by
  cases fault with
  | none => exact segments_line h rest
  | some f => exact closedSegments_line h rest

/-! ## The line under way -/

/-- A splitter that has these bytes of the line under way behind it. -/
structure Splitter.Holds (s : Splitter) (held : List UInt8) : Prop where
  plain : lineEnd ∉ held
  lead_eq : s.lead = (held.take s.leadLimit).reverse
  room_eq : s.room = s.leadLimit - held.length
  place_eq : s.place = s.lineStart + held.length
  offset_eq : s.offset = s.place + s.unread.length

theorem takeWhile_plain {before : List UInt8} (h : lineEnd ∉ before)
    (after : List UInt8) :
    (before ++ lineEnd :: after).takeWhile (· != lineEnd) = before ∧
    (before ++ lineEnd :: after).dropWhile (· != lineEnd)
      = lineEnd :: after := by
  have hall : ∀ b ∈ before, (b != lineEnd) = true := fun b hb =>
    bne_iff_ne.mpr fun heq => h (heq ▸ hb)
  rw [List.takeWhile_append_of_pos hall, List.dropWhile_append_of_pos hall]
  simp

section

variable {s : Splitter}

theorem Splitter.takeLine_of_line {before after : List UInt8}
    (hunread : s.unread = before ++ lineEnd :: after)
    (hplain : lineEnd ∉ before) :
    s.takeLine
      = (some ((s.extend before).endLine (s.place + before.length)).1,
        { ((s.extend before).endLine (s.place + before.length)).2 with
          unread := after, place := s.place + before.length + 1 }) := by
  obtain ⟨htake, hdrop⟩ := takeWhile_plain hplain after
  unfold takeLine
  rw [hunread, hdrop, htake]

theorem Splitter.takeLine_of_plain (hplain : lineEnd ∉ s.unread) :
    s.takeLine = (none, { s.extend s.unread with
      unread := [], place := s.place + s.unread.length }) := by
  have hall : ∀ b ∈ s.unread, (b != lineEnd) = true := fun b hb =>
    bne_iff_ne.mpr fun heq => hplain (heq ▸ hb)
  have htake : s.unread.takeWhile (· != lineEnd) = s.unread := by
    rw [← List.append_nil s.unread, List.takeWhile_append_of_pos hall]
    rfl
  have hdrop : s.unread.dropWhile (· != lineEnd) = [] := by
    rw [← List.append_nil s.unread, List.dropWhile_append_of_pos hall]
    rfl
  unfold takeLine
  rw [hdrop, htake]

variable {held : List UInt8} (h : s.Holds held)

include h

theorem Splitter.Holds.extend (bytes : List UInt8) :
    (s.extend bytes).lead = ((held ++ bytes).take s.leadLimit).reverse ∧
    (s.extend bytes).room = s.leadLimit - (held ++ bytes).length := by
  constructor
  · show (bytes.take s.room).reverse ++ s.lead = _
    rw [h.lead_eq, h.room_eq, ← List.reverse_append, List.take_append]
  · show s.room - (bytes.take s.room).length = _
    rw [h.room_eq, List.length_append, List.length_take]
    omega

/-- What is told at a line end. -/
theorem Splitter.Holds.endLine (before : List UInt8) :
    ((s.extend before).endLine (s.place + before.length)).1
      = .ofSegment s.leadLimit s.lineStart (held ++ before) := by
  have hplace : s.place + before.length
      = s.lineStart + (held ++ before).length := by
    rw [h.place_eq, List.length_append, Nat.add_assoc]
  show RawLine.mk (.between s.lineStart (s.place + before.length))
    (s.extend before).lead.reverse = _
  rw [hplace, (h.extend before).1, List.reverse_reverse]
  rfl

end

/-! ## The text before a splitter -/

/-- A splitter that has a text before it, from the line under way on, with
what comes after the text. -/
structure Splitter.Faces (s : Splitter) (leadLimit start : Nat)
    (text : List UInt8) (fault : Option Fault) : Prop where
  leadLimit_eq : s.leadLimit = leadLimit
  start_eq : s.lineStart = start
  ahead : ∃ held reads, s.Holds held ∧ s.reads = some reads ∧
    held ++ s.unread ++ bytesOf reads = text ∧ faultOf reads = fault

/-- A splitter that has come to the end, or to a fault. -/
structure Splitter.Exhausted (s : Splitter) : Prop where
  reads_eq : s.reads = none
  unread_eq : s.unread = []

/-- All that a call can do with the text before a splitter. -/
inductive Splitter.Step (leadLimit start : Nat) (text : List UInt8)
    (fault : Option Fault) :
    Except ForecastError (Option SplitEvent) × Splitter → Prop
  /-- Progress is told, and the text stays as it is. -/
  | progress {offset size : Nat} {s : Splitter} :
      s.Faces leadLimit start text fault →
      Step leadLimit start text fault
        (.ok (some (.progress offset size)), s)
  /-- The first segment is told, and taken off with its line end. -/
  | line {segment rest : List UInt8} {s : Splitter} :
      lineEnd ∉ segment → text = segment ++ lineEnd :: rest →
      s.Faces leadLimit (start + segment.length + 1) rest fault →
      Step leadLimit start text fault
        (.ok (some (.line (.ofSegment leadLimit start segment))), s)
  /-- The tail is told at the end. -/
  | tail {s : Splitter} :
      lineEnd ∉ text → text ≠ [] → fault = none → s.Exhausted →
      Step leadLimit start text fault
        (.ok (some (.line (.ofSegment leadLimit start text))), s)
  | stop {s : Splitter} :
      text = [] → fault = none → s.Exhausted →
      Step leadLimit start text fault (.ok none, s)
  /-- A fault is told instead of the tail. -/
  | fail {f : Fault} {s : Splitter} :
      lineEnd ∉ text → fault = some f → s.Exhausted →
      Step leadLimit start text fault (.error (.streamRead f), s)

section

variable {s : Splitter} {leadLimit start : Nat} {text : List UInt8}
  {fault : Option Fault}

theorem Splitter.start_faces (reads : List Read) (size : Nat)
    (settings : Settings) :
    (Splitter.start reads size settings).Faces settings.leadLimit 0
      (bytesOf reads) (faultOf reads) := by
  refine ⟨rfl, rfl, [], reads, ⟨List.not_mem_nil, ?_, rfl, rfl, rfl⟩, rfl,
    rfl, rfl⟩
  rw [List.take_nil]
  rfl

theorem Splitter.Faces.takeLine_some (h : s.Faces leadLimit start text fault)
    {raw : RawLine} {s' : Splitter} (hline : s.takeLine = (some raw, s')) :
    Step leadLimit start text fault (.ok (some (.line raw)), s') := by
  obtain ⟨hlimit, hstart, held, reads, hholds, hreads, htext, hfault⟩ := h
  rcases segments_cases s.unread with hplain | ⟨before, after, hplain, hunread⟩
  · rw [takeLine_of_plain hplain] at hline
    exact absurd (congrArg Prod.fst hline) (by simp)
  · rw [takeLine_of_line hunread hplain, hholds.endLine before, hlimit,
      hstart] at hline
    obtain ⟨rfl, rfl⟩ := by simpa using hline
    have hsegment : lineEnd ∉ held ++ before := by
      rw [List.mem_append]
      exact fun hmem => hmem.elim hholds.plain hplain
    have hnext : text
        = held ++ before ++ lineEnd :: (after ++ bytesOf reads) := by
      rw [← htext, hunread]
      simp
    refine .line hsegment hnext
      ⟨hlimit, ?_, [], reads, ⟨List.not_mem_nil, ?_, rfl, rfl, ?_⟩, hreads,
        rfl, hfault⟩
    · show s.place + before.length + 1 = _
      rw [hholds.place_eq, hstart, List.length_append]
      omega
    · rw [List.take_nil]
      rfl
    · show s.offset = s.place + before.length + 1 + after.length
      rw [hholds.offset_eq, hunread, List.length_append, List.length_cons]
      omega

theorem Splitter.Faces.takeLine_none (h : s.Faces leadLimit start text fault)
    {s' : Splitter} (hline : s.takeLine = (none, s')) :
    s'.Faces leadLimit start text fault := by
  obtain ⟨hlimit, hstart, held, reads, hholds, hreads, htext, hfault⟩ := h
  rcases segments_cases s.unread with hplain | ⟨before, after, hplain, hunread⟩
  · rw [takeLine_of_plain hplain] at hline
    obtain rfl := congrArg Prod.snd hline
    obtain ⟨hlead, hroom⟩ := hholds.extend s.unread
    have hheld : lineEnd ∉ held ++ s.unread := by
      rw [List.mem_append]
      exact fun hmem => hmem.elim hholds.plain hplain
    refine ⟨hlimit, hstart, held ++ s.unread, reads,
      ⟨hheld, hlead, hroom, ?_, hholds.offset_eq⟩, hreads, ?_, hfault⟩
    · show s.place + s.unread.length = s.lineStart + _
      rw [hholds.place_eq, List.length_append, Nat.add_assoc]
    · rw [List.append_nil, htext]
  · rw [takeLine_of_line hunread hplain] at hline
    exact absurd (congrArg Prod.fst hline) (by simp)

/-- Taking in a read moves the window and changes nothing else. -/
theorem Splitter.Faces.fill (h : s.Faces leadLimit start text fault)
    (hunread : s.unread = []) {piece : List UInt8} {reads : List Read}
    (hreads : s.reads = some (.bytes piece :: reads)) :
    (s.fill piece reads).Faces leadLimit start text fault := by
  obtain ⟨hlimit, hstart, held, _, hholds, hahead, htext, hfault⟩ := h
  obtain rfl := Option.some.inj (hreads.symm.trans hahead)
  have hoffset := hholds.offset_eq
  rw [hunread, List.length_nil, Nat.add_zero] at hoffset
  refine ⟨hlimit, hstart, held, reads,
    ⟨hholds.plain, hholds.lead_eq, hholds.room_eq, ?_, rfl⟩, rfl, ?_, hfault⟩
  · exact hoffset.trans hholds.place_eq
  · rw [← htext, hunread, List.append_nil, bytesOf, ← List.append_assoc]
    rfl

/-- When progress was told does not matter. -/
theorem Splitter.Faces.told (h : s.Faces leadLimit start text fault)
    (lastProgress : Nat) :
    ({ s with lastProgress } : Splitter).Faces leadLimit start text fault := by
  obtain ⟨hlimit, hstart, held, reads, hholds, hahead⟩ := h
  exact ⟨hlimit, hstart, held, reads,
    ⟨hholds.plain, hholds.lead_eq, hholds.room_eq, hholds.place_eq,
      hholds.offset_eq⟩, hahead⟩

theorem Splitter.Faces.advance {reads : List Read}
    (h : s.Faces leadLimit start text fault) (hunread : s.unread = [])
    (hreads : s.reads = some reads) :
    Step leadLimit start text fault (s.advance reads) := by
  induction reads generalizing s with
  | nil =>
      -- Nothing is left to come, so what is held is all of the text.
      obtain ⟨hlimit, hstart, held, _, hholds, hahead, htext, hfault⟩ := h
      obtain rfl := Option.some.inj (hreads.symm.trans hahead)
      obtain rfl : held = text := by simpa [hunread, bytesOf] using htext
      have hplace := hholds.place_eq
      have hoffset : s.offset = s.lineStart + held.length := by
        rw [hholds.offset_eq, hunread, hplace]
        rfl
      rw [Splitter.advance]
      dsimp only
      split
      · next hlt =>
          have hraw : (({ s with reads := none } : Splitter).endLine s.offset).1
              = .ofSegment leadLimit start held := by
            show RawLine.mk (.between s.lineStart s.offset) s.lead.reverse = _
            rw [hoffset, hholds.lead_eq, List.reverse_reverse, hstart, hlimit]
            rfl
          have hsome : held ≠ [] := by
            intro hnil
            rw [hoffset, hnil] at hlt
            exact Nat.lt_irrefl _ hlt
          rw [hraw]
          exact .tail hholds.plain hsome hfault.symm ⟨rfl, hunread⟩
      · next hge =>
          have hnil : held = [] := by
            rw [hoffset] at hge
            exact List.length_eq_zero_iff.mp (by omega)
          exact .stop hnil hfault.symm ⟨rfl, hunread⟩
  | cons read reads ih =>
      cases read with
      | fault f =>
          obtain ⟨-, -, held, _, hholds, hahead, htext, hfault⟩ := h
          obtain rfl := Option.some.inj (hreads.symm.trans hahead)
          obtain rfl : held = text := by simpa [hunread, bytesOf] using htext
          exact .fail hholds.plain hfault.symm ⟨rfl, hunread⟩
      | bytes piece =>
          have hfill := h.fill hunread hreads
          rw [Splitter.advance]
          split
          · exact .progress (hfill.told _)
          · split
            · next raw s' hline => exact hfill.takeLine_some hline
            · next s' hline =>
                obtain ⟨hunread', hreads'⟩ := takeLine_of_none hline
                exact ih (hfill.takeLine_none hline) hunread' hreads'

theorem Splitter.Faces.next (h : s.Faces leadLimit start text fault) :
    Step leadLimit start text fault s.next := by
  rw [Splitter.next]
  split
  · next raw s' hline => exact h.takeLine_some hline
  · next s' hline =>
      have h' := h.takeLine_none hline
      obtain ⟨hunread, -⟩ := takeLine_of_none hline
      obtain ⟨_, reads, -, hreads, -⟩ := h'.ahead
      rw [hreads]
      exact h'.advance hunread hreads

/-- Once exhausted, always exhausted. -/
theorem Splitter.Exhausted.next (h : s.Exhausted) :
    ∃ s', s.next = (.ok none, s') ∧ s'.Exhausted := by
  have hplain : lineEnd ∉ s.unread := by
    rw [h.unread_eq]
    exact List.not_mem_nil
  refine ⟨{ s.extend s.unread with
    unread := [], place := s.place + s.unread.length }, ?_, h.reads_eq, rfl⟩
  rw [Splitter.next, takeLine_of_plain hplain]
  dsimp only [Splitter.extend]
  rw [h.reads_eq]

end

/-! ## Runs -/

section

variable {s s' : Splitter}

theorem Splitter.runBehind_of_stop (h : s.next = (.ok none, s'))
    (before : List SplitEvent) :
    s.runBehind before = (before.reverse, .ok ()) := by
  rw [runBehind]
  split <;> rename_i hnext <;> rw [h] at hnext <;> cases hnext

theorem Splitter.runBehind_of_fail {error : ForecastError}
    (h : s.next = (.error error, s')) (before : List SplitEvent) :
    s.runBehind before = (before.reverse, .error error) := by
  rw [runBehind]
  split <;> rename_i hnext <;> rw [h] at hnext <;> cases hnext
  rfl

theorem Splitter.runBehind_of_event {e : SplitEvent}
    (h : s.next = (.ok (some e), s')) (before : List SplitEvent) :
    s.runBehind before = s'.runBehind (e :: before) := by
  rw [runBehind]
  split <;> rename_i hnext <;> rw [h] at hnext <;> cases hnext
  rfl

/-- Events told before stay in front. -/
theorem Splitter.runBehind_append (before more : List SplitEvent)
    (s : Splitter) :
    s.runBehind (before ++ more)
      = (more.reverse ++ (s.runBehind before).1, (s.runBehind before).2) := by
  fun_induction Splitter.runBehind before s with
  | case1 before s s' hnext =>
      rw [runBehind_of_stop hnext, List.reverse_append]
  | case2 before s error s' hnext =>
      rw [runBehind_of_fail hnext, List.reverse_append]
  | case3 before s e s' hnext ih =>
      rw [runBehind_of_event hnext]
      exact ih

theorem Splitter.run_of_event {e : SplitEvent}
    (h : s.next = (.ok (some e), s')) :
    s.run = (e :: s'.run.1, s'.run.2) := by
  rw [run, runBehind_of_event h]
  exact runBehind_append [] [e] s'

theorem Splitter.Exhausted.run (h : s.Exhausted) : s.run = ([], .ok ()) := by
  obtain ⟨s', hnext, -⟩ := h.next
  exact runBehind_of_stop hnext []

end

/-- A run tells the segments of the text before it, each as the line that it
is, and ends as the text does. -/
theorem Splitter.Faces.run {s : Splitter} {leadLimit start : Nat}
    {text : List UInt8} {fault : Option Fault}
    (h : s.Faces leadLimit start text fault) :
    s.run.1.filterMap SplitEvent.line?
        = RawLine.ofSegments leadLimit start (segmentsTold text fault) ∧
    s.run.2 = endOf fault := by
  have hstep := h.next
  generalize hnext : s.next = told at hstep
  cases hstep with
  | progress hfaces =>
      rw [run_of_event hnext]
      exact hfaces.run
  | line hplain htext hfaces =>
      obtain ⟨hlines, hend⟩ := hfaces.run
      rw [run_of_event hnext, htext, segmentsTold_line hplain]
      refine ⟨?_, hend⟩
      rw [RawLine.ofSegments, ← hlines]
      rfl
  | tail hplain hsome hfault hexhausted =>
      rw [run_of_event hnext, hexhausted.run, hfault]
      refine ⟨?_, rfl⟩
      rw [segmentsTold, segments_plain hplain, tailSegment, if_neg hsome]
      rfl
  | stop hnil hfault hexhausted =>
      rw [Splitter.run, runBehind_of_stop hnext, hnil, hfault]
      exact ⟨rfl, rfl⟩
  | fail hplain hfault hexhausted =>
      rw [Splitter.run, runBehind_of_fail hnext, hfault, segmentsTold,
        closedSegments_plain hplain]
      exact ⟨rfl, rfl⟩
termination_by s.load
decreasing_by
  · exact next_load hnext
  · exact next_load hnext

end Ridership.Log

import Mathlib.Logic.Relation
import Ridership.Proofs.SplitterCalls
import Ridership.Proofs.SplitterProgress

/-!
# The counters of a splitter

A splitter works through a buffer, and what it knows of the log it knows by
counting: where the last read begins and ends, how far it has looked, where the
line under way begins, how much of the line it holds, and when progress was last
told. All of this moves at different moments. A call may stop in the middle of a
read, right behind one, or behind the last, and between two stops it may pass
over any number of reads.

So calls are taken apart into turns (`Splitter.Turn`), which are what happens
between two moments at which a counter is read. A call is a chain of turns
(`Splitter.next_turns`), and every turn keeps the counters in order
(`Splitter.Turn.inOrder`). What that comes to, for any state on the way, is
`Splitter.Sound`: whatever is taken from something is not more than it.

The bytes of the line under way are those between two counters, and what is
known of them is `Splitter.Faces`, for which the counters do not matter.
-/

namespace Ridership.Log

open Forecast (ForecastError)
open Relation (ReflTransGen)
open Storage (Fault Read bytesOf faultOf)

/-! ## Turns -/

/-- The state behind so many calls. -/
def Splitter.after (s : Splitter) : Nat → Splitter
  | 0 => s
  | n + 1 => s.next.2.after n

/-- A splitter whose reads have come to their end. If there is anything of the
line under way, it ends there. -/
def Splitter.close (s : Splitter) : Splitter :=
  let s := { s with reads := none }
  if s.lineStart < s.offset then (s.endLine s.offset).2 else s

/-- What a call is made of. -/
inductive Splitter.Turn : Splitter → Splitter → Prop
  /-- The unread bytes are searched for a line end. -/
  | search (s : Splitter) : s.Turn s.takeLine.2
  | fill {s : Splitter} {piece : List UInt8} {reads : List Read}
      (hunread : s.unread = [])
      (hreads : s.reads = some (.bytes piece :: reads)) :
      s.Turn (s.fill piece reads)
  /-- The bytes read so far are told. -/
  | tell {s : Splitter} (hdue : s.progressStep ≤ s.offset - s.lastProgress) :
      s.Turn { s with lastProgress := s.offset }
  | close {s : Splitter} (hunread : s.unread = []) (hreads : s.reads = some []) :
      s.Turn s.close
  | fail {s : Splitter} {f : Fault} {reads : List Read}
      (hunread : s.unread = []) (hreads : s.reads = some (.fault f :: reads)) :
      s.Turn { s with reads := none }

section

variable {s : Splitter}

theorem Splitter.advance_turns {reads : List Read} (hunread : s.unread = [])
    (hreads : s.reads = some reads) :
    ReflTransGen Turn s (s.advance reads).2 := by
  induction reads generalizing s with
  | nil =>
      have hclose : (s.advance []).2 = s.close := by
        simp only [advance, close]
        split <;> rfl
      rw [hclose]
      exact .single (.close hunread hreads)
  | cons read reads ih =>
      cases read with
      | fault f => exact .single (.fail hunread hreads)
      | bytes piece =>
          have hfill : s.Turn (s.fill piece reads) := .fill hunread hreads
          rw [advance]
          split
          · next hdue => exact .tail (.single hfill) (.tell hdue)
          · -- Nothing is told, and the search goes on in the read.
            have hsearch := Turn.search (s.fill piece reads)
            split
            · next raw s' hline =>
                rw [hline] at hsearch
                exact .tail (.single hfill) hsearch
            · next s' hline =>
                rw [hline] at hsearch
                obtain ⟨hunread', hreads'⟩ := takeLine_of_none hline
                exact .head hfill (.head hsearch (ih hunread' hreads'))

/-- A call is a chain of turns. -/
theorem Splitter.next_turns (s : Splitter) : ReflTransGen Turn s s.next.2 := by
  have hsearch := Turn.search s
  rw [next]
  split
  · next raw s' hline =>
      rw [hline] at hsearch
      exact .single hsearch
  · next s' hline =>
      rw [hline] at hsearch
      obtain ⟨hunread, -⟩ := takeLine_of_none hline
      split
      · exact .single hsearch
      · next reads hreads => exact .head hsearch (advance_turns hunread hreads)

theorem Splitter.after_turns (s : Splitter) (n : Nat) :
    ReflTransGen Turn s (s.after n) := by
  induction n generalizing s with
  | zero => exact .refl
  | succ n ih => exact s.next_turns.trans (ih s.next.2)

theorem Splitter.answer_eq_next (s : Splitter) (n : Nat) :
    s.answer n = (s.after n).next.1 := by
  induction n generalizing s with
  | zero => rfl
  | succ n ih => exact ih s.next.2

end

/-! ## What every turn keeps -/

/-- The counters of a splitter that reads a text through a buffer. -/
structure Splitter.InOrder (s : Splitter) (leadLimit buffer : Nat)
    (text : List UInt8) (fault : Option Fault) : Prop where
  leadLimit_eq : s.leadLimit = leadLimit
  chunkStart_le : s.chunkStart ≤ s.place
  aligned : s.Aligned
  buffered : s.offset ≤ s.chunkStart + buffer
  lastProgress_le : s.lastProgress ≤ s.offset
  room_eq : s.room + s.lead.length = s.leadLimit
  lineStart_le : s.lineStart ≤ s.offset + 1
  offset_le : s.offset ≤ text.length
  facing : s.Exhausted ∨
    s.Faces leadLimit s.lineStart (text.drop s.lineStart) fault
  fits : ∀ piece, .bytes piece ∈ s.reads.getD [] → piece.length ≤ buffer

section

variable {s : Splitter}

theorem Splitter.extend_room (s : Splitter) (bytes : List UInt8) :
    (s.extend bytes).room + (s.extend bytes).lead.length
      = s.room + s.lead.length := by
  show s.room - (bytes.take s.room).length
    + ((bytes.take s.room).reverse ++ s.lead).length = _
  rw [List.length_append, List.length_reverse, List.length_take]
  omega

/-- What a search does to the counters that have nothing to do with reads. -/
theorem Splitter.takeLine_counters (s : Splitter)
    (hroom : s.room + s.lead.length = s.leadLimit) :
    s.takeLine.2.chunkStart = s.chunkStart ∧
    s.takeLine.2.leadLimit = s.leadLimit ∧
    s.takeLine.2.room + s.takeLine.2.lead.length = s.leadLimit ∧
    (s.takeLine.2.lineStart = s.lineStart ∨
      s.takeLine.2.lineStart = s.takeLine.2.place) := by
  rcases segments_cases s.unread with hplain | ⟨before, after, hplain, hunread⟩
  · rw [takeLine_of_plain hplain]
    exact ⟨rfl, rfl, (s.extend_room s.unread).trans hroom, .inl rfl⟩
  · rw [takeLine_of_line hunread hplain]
    exact ⟨rfl, rfl, rfl, .inr rfl⟩

variable {leadLimit buffer : Nat} {text : List UInt8} {fault : Option Fault}

theorem Splitter.Faces.search
    (h : s.Faces leadLimit s.lineStart (text.drop s.lineStart) fault) :
    s.takeLine.2.Exhausted ∨ s.takeLine.2.Faces leadLimit
      s.takeLine.2.lineStart (text.drop s.takeLine.2.lineStart) fault := by
  rcases hline : s.takeLine with ⟨_ | raw, s'⟩
  · have hfaces := h.takeLine_none hline
    rw [hfaces.start_eq]
    exact .inr hfaces
  · have hstep := h.takeLine_some hline
    generalize htext : text.drop s.lineStart = ahead at hstep
    cases hstep with
    | @line segment rest _ hplain hahead hfaces =>
        have hrest : text.drop (s.lineStart + segment.length + 1) = rest := by
          rw [Nat.add_assoc, ← List.drop_drop, htext, hahead,
            ← List.drop_drop, List.drop_left]
          rfl
        rw [hfaces.start_eq, hrest]
        exact .inr hfaces
    | tail _ _ _ hexhausted => exact .inl hexhausted

theorem Splitter.InOrder.search (h : s.InOrder leadLimit buffer text fault) :
    s.takeLine.2.InOrder leadLimit buffer text fault := by
  have halike := s.takeLine_alike
  obtain ⟨hchunk, hlimit, hroom, hstart⟩ := s.takeLine_counters h.room_eq
  have haligned := halike.aligned h.aligned
  have hplace := haligned.place_le
  have hline := h.lineStart_le
  refine ⟨hlimit.trans h.leadLimit_eq, ?_, haligned, ?_, ?_, hroom.trans
    hlimit.symm, ?_, ?_, ?_, ?_⟩
  · rw [hchunk]
    exact h.chunkStart_le.trans halike.place_le
  · rw [halike.offset_eq, hchunk]
    exact h.buffered
  · rw [halike.last_eq, halike.offset_eq]
    exact h.lastProgress_le
  · rw [halike.offset_eq] at hplace ⊢
    rcases hstart with hstart | hstart <;> omega
  · rw [halike.offset_eq]
    exact h.offset_le
  · rcases h.facing with hexhausted | hfaces
    · have hplain : lineEnd ∉ s.unread := by
        rw [hexhausted.unread_eq]
        exact List.not_mem_nil
      rw [takeLine_of_plain hplain]
      exact .inl ⟨hexhausted.reads_eq, rfl⟩
    · exact hfaces.search
  · rw [halike.reads_eq]
    exact h.fits

/-- What is ahead of a splitter that has looked at all it has read. -/
theorem Splitter.Faces.ahead_eq {reads : List Read} {start : Nat}
    (h : s.Faces leadLimit start text fault) (hunread : s.unread = [])
    (hreads : s.reads = some reads) :
    s.offset + (bytesOf reads).length = start + text.length := by
  obtain ⟨-, hstart, held, _, hholds, hahead, htext, -⟩ := h
  obtain rfl := Option.some.inj (hreads.symm.trans hahead)
  have hlength := congrArg List.length htext
  have hplace := hholds.place_eq
  have hoffset := hholds.offset_eq
  rw [hunread, List.append_nil, List.length_append] at hlength
  rw [hunread, List.length_nil] at hoffset
  omega

theorem Splitter.Faces.start_le {start : Nat}
    (h : s.Faces leadLimit start text fault) : start ≤ s.offset := by
  obtain ⟨-, hstart, held, _, hholds, -⟩ := h
  have hplace := hholds.place_eq
  have hoffset := hholds.offset_eq
  omega

theorem Splitter.InOrder.fill (h : s.InOrder leadLimit buffer text fault)
    (hunread : s.unread = []) {piece : List UInt8} {reads : List Read}
    (hreads : s.reads = some (.bytes piece :: reads)) :
    (s.fill piece reads).InOrder leadLimit buffer text fault := by
  have hfits := h.fits
  rw [hreads, Option.getD_some] at hfits
  have hpiece := hfits piece List.mem_cons_self
  have hline := h.lineStart_le
  have hlast := h.lastProgress_le
  rcases h.facing with hexhausted | hfaces
  · rw [hexhausted.reads_eq] at hreads
    cases hreads
  · have hahead := hfaces.ahead_eq hunread hreads
    rw [bytesOf, List.length_append, List.length_drop] at hahead
    have hstart := hfaces.start_le
    have hle := h.offset_le
    refine ⟨h.leadLimit_eq, Nat.le_refl _, rfl, ?_, ?_, h.room_eq, ?_, ?_,
      .inr (hfaces.fill hunread hreads), fun piece hmem => ?_⟩
    · show s.offset + piece.length ≤ s.offset + buffer
      omega
    · show s.lastProgress ≤ s.offset + piece.length
      omega
    · show s.lineStart ≤ s.offset + piece.length + 1
      omega
    · show s.offset + piece.length ≤ text.length
      omega
    · exact hfits piece (List.mem_cons_of_mem _ hmem)

/-- Every turn keeps the counters in order. -/
theorem Splitter.Turn.inOrder {s' : Splitter} (h : s.Turn s')
    (hs : s.InOrder leadLimit buffer text fault) :
    s'.InOrder leadLimit buffer text fault := by
  have hno : ∀ piece, Read.bytes piece ∈ (none : Option (List Read)).getD [] →
      piece.length ≤ buffer := nofun
  cases h with
  | search => exact hs.search
  | fill hunread hreads => exact hs.fill hunread hreads
  | tell =>
      refine ⟨hs.leadLimit_eq, hs.chunkStart_le, hs.aligned, hs.buffered,
        Nat.le_refl _, hs.room_eq, hs.lineStart_le, hs.offset_le, ?_, hs.fits⟩
      rcases hs.facing with hexhausted | hfaces
      · exact .inl ⟨hexhausted.reads_eq, hexhausted.unread_eq⟩
      · exact .inr (hfaces.told _)
  | close hunread =>
      unfold Splitter.close
      dsimp only
      split
      · exact ⟨hs.leadLimit_eq, hs.chunkStart_le, hs.aligned, hs.buffered,
          hs.lastProgress_le, rfl, Nat.le_refl _, hs.offset_le,
          .inl ⟨rfl, hunread⟩, hno⟩
      · exact ⟨hs.leadLimit_eq, hs.chunkStart_le, hs.aligned, hs.buffered,
          hs.lastProgress_le, hs.room_eq, hs.lineStart_le, hs.offset_le,
          .inl ⟨rfl, hunread⟩, hno⟩
  | fail hunread =>
      exact ⟨hs.leadLimit_eq, hs.chunkStart_le, hs.aligned, hs.buffered,
        hs.lastProgress_le, hs.room_eq, hs.lineStart_le, hs.offset_le,
        .inl ⟨rfl, hunread⟩, hno⟩

theorem Splitter.InOrder.turns {s' : Splitter} (h : ReflTransGen Turn s s')
    (hs : s.InOrder leadLimit buffer text fault) :
    s'.InOrder leadLimit buffer text fault := by
  induction h with
  | refl => exact hs
  | tail _ hturn ih => exact hturn.inOrder ih

theorem Splitter.start_inOrder {reads : List Read} {size : Nat}
    {settings : Settings}
    (hfits : ∀ piece, .bytes piece ∈ reads → piece.length ≤ buffer) :
    (Splitter.start reads size settings).InOrder settings.leadLimit buffer
      (bytesOf reads) (faultOf reads) :=
  ⟨rfl, Nat.le_refl _, rfl, Nat.zero_le _, Nat.le_refl _, rfl, Nat.zero_le _,
    Nat.zero_le _, .inr (start_faces reads size settings), hfits⟩

end

/-! ## What the counters are worth -/

/-- How many bytes of the buffer were looked at. -/
def Splitter.pos (s : Splitter) : Nat :=
  s.place - s.chunkStart

/-- How many bytes of the buffer are those of the last read. -/
def Splitter.filled (s : Splitter) : Nat :=
  s.offset - s.chunkStart

/-- The bytes of the line under way that were looked at. -/
def Splitter.underWay (s : Splitter) (text : List UInt8) : List UInt8 :=
  (text.drop s.lineStart).take (s.place - s.lineStart)

/-- Nothing that is taken from a counter is more than it, and while there are
reads to come, the line under way is what lies between two of the counters. -/
structure Splitter.Sound (s : Splitter) (leadLimit buffer : Nat)
    (text : List UInt8) : Prop where
  pos_le : s.pos ≤ s.filled
  filled_le : s.filled ≤ buffer
  place_eq : s.chunkStart + s.pos = s.place
  offset_eq : s.chunkStart + s.filled = s.offset
  unread_eq : s.unread = (text.drop s.place).take (s.filled - s.pos)
  offset_le : s.offset ≤ text.length
  lastProgress_le : s.lastProgress ≤ s.offset
  lead_le : s.lead.length ≤ leadLimit
  room_eq : s.room = leadLimit - s.lead.length
  lineStart_le : s.lineStart ≤ s.offset + 1
  lineStart_le_place : s.reads ≠ none → s.lineStart ≤ s.place
  length_underWay : s.reads ≠ none →
    (s.underWay text).length = s.place - s.lineStart
  plain : s.reads ≠ none → lineEnd ∉ s.underWay text
  lead_eq : s.reads ≠ none → s.lead.reverse
    = (s.underWay text).take (min leadLimit (s.place - s.lineStart))

section

variable {s : Splitter} {leadLimit buffer : Nat} {text : List UInt8}
  {fault : Option Fault}

/-- What a splitter holds of a line is what lies between its counters. -/
theorem Splitter.Holds.underWay_eq {held rest : List UInt8} (h : s.Holds held)
    (htext : held ++ rest = text.drop s.lineStart) :
    s.underWay text = held := by
  have hlength : s.place - s.lineStart = held.length := by
    rw [h.place_eq]
    omega
  rw [underWay, hlength, ← htext, List.take_left]

theorem Splitter.InOrder.sound (h : s.InOrder leadLimit buffer text fault) :
    s.Sound leadLimit buffer text := by
  have hchunk := h.chunkStart_le
  have haligned : s.offset = s.place + s.unread.length := h.aligned
  have hbuffered := h.buffered
  have hroom := h.room_eq
  rw [h.leadLimit_eq] at hroom
  have hspan : s.filled - s.pos = s.unread.length := by
    simp only [filled, pos]
    omega
  have hunread : s.unread = (text.drop s.place).take (s.filled - s.pos) := by
    rw [hspan]
    rcases h.facing with hexhausted | ⟨-, -, held, reads, hholds, -, htext, -⟩
    · rw [hexhausted.unread_eq]
      rfl
    · rw [hholds.place_eq, ← List.drop_drop, ← htext, List.append_assoc,
        List.drop_left, List.take_left]
  have hheld : s.reads ≠ none → ∃ held rest, s.Holds held ∧
      held ++ rest = text.drop s.lineStart := by
    intro hsome
    rcases h.facing with hexhausted | ⟨-, -, held, reads, hholds, -, htext, -⟩
    · exact absurd hexhausted.reads_eq hsome
    · exact ⟨held, s.unread ++ bytesOf reads, hholds, by
        rw [← htext, List.append_assoc]⟩
  refine ⟨?_, ?_, ?_, ?_, hunread, h.offset_le, h.lastProgress_le, ?_, ?_,
    h.lineStart_le, fun hsome => ?_, fun hsome => ?_, fun hsome => ?_,
    fun hsome => ?_⟩
  · simp only [filled, pos]
    omega
  · simp only [filled]
    omega
  · simp only [pos]
    omega
  · simp only [filled]
    omega
  · omega
  · omega
  all_goals
    obtain ⟨held, rest, hholds, htext⟩ := hheld hsome
    have hplace := hholds.place_eq
  · omega
  · rw [hholds.underWay_eq htext]
    omega
  · rw [hholds.underWay_eq htext]
    exact hholds.plain
  · have hlength : s.place - s.lineStart = held.length := by omega
    rw [hholds.underWay_eq htext, hlength, hholds.lead_eq, List.reverse_reverse,
      h.leadLimit_eq, List.take_eq_take_min]

/-- A line that is told ends behind its beginning, and not behind the text. -/
theorem Splitter.InOrder.line_le (h : s.InOrder leadLimit buffer text fault)
    {raw : RawLine} (hline : s.next.1 = .ok (some (.line raw))) :
    raw.line.start ≤ raw.line.stop ∧ raw.line.stop ≤ text.length ∧
      raw.line.length = raw.line.stop - raw.line.start + 1 := by
  have hsegment : ∀ {segment rest : List UInt8}, segment ++ rest ≠ [] →
      text.drop s.lineStart = segment ++ rest →
      raw = .ofSegment leadLimit s.lineStart segment →
      raw.line.start ≤ raw.line.stop ∧ raw.line.stop ≤ text.length ∧
        raw.line.length = raw.line.stop - raw.line.start + 1 := by
    rintro segment rest hsome htext rfl
    have hlength := congrArg List.length htext
    have hpos := List.length_pos_of_ne_nil hsome
    rw [List.length_drop, List.length_append] at hlength
    rw [List.length_append] at hpos
    refine ⟨Nat.le_add_right _ _, ?_, rfl⟩
    show s.lineStart + segment.length ≤ text.length
    omega
  rcases h.facing with hexhausted | hfaces
  · obtain ⟨s', hnext, -⟩ := hexhausted.next
    rw [hnext] at hline
    cases hline
  · have hstep := hfaces.next
    generalize htext : text.drop s.lineStart = ahead at hstep
    generalize s.next = told at hstep hline
    cases hstep with
    | progress | stop | fail => cases hline
    | @line segment rest _ _ hahead =>
        cases hline
        exact hsegment (by simp) (htext.trans hahead) rfl
    | tail _ hsome =>
        cases hline
        refine @hsegment ahead [] ?_ ?_ rfl
        · rwa [List.append_nil]
        · rwa [List.append_nil]

end

/-- Reads that fit into the buffer, and together bring fewer bytes than a
counter can count, keep the counters of a splitter sound: behind every
call, and at every turn that a call is made of. Nothing is taken from less
than it, and no counter outgrows its width. The same holds of every line
that is told. -/
theorem Splitter.counters_sound {reads : List Read} {settings : Settings}
    (hfits : ∀ piece, .bytes piece ∈ reads →
      piece.length ≤ max 1 settings.readSize)
    (htotal : (bytesOf reads).length < widthSize 64 - 1) (size : Nat) :
    let first := Splitter.start reads size settings
    (∀ n, ReflTransGen Turn first (first.after n)) ∧
    (∀ s, ReflTransGen Turn first s →
      s.Sound settings.leadLimit (max 1 settings.readSize) (bytesOf reads) ∧
      ∀ count ∈ [s.chunkStart, s.place, s.offset, s.lineStart, s.lastProgress],
        fitsUnsigned 64 count) ∧
    ∀ n raw, first.answer n = .ok (some (.line raw)) →
      raw.line.start ≤ raw.line.stop ∧
      raw.line.length = raw.line.stop - raw.line.start + 1 ∧
      fitsUnsigned 64 raw.line.length := by
  intro first
  have horder : ∀ {s : Splitter}, ReflTransGen Turn first s →
      s.InOrder settings.leadLimit (max 1 settings.readSize) (bytesOf reads)
        (faultOf reads) := by
    intro s hturns
    exact (start_inOrder hfits).turns hturns
  have hwidth : widthSize 64 = 2 ^ 64 := rfl
  rw [hwidth] at htotal
  have hcount : ∀ {count : Nat}, count ≤ (bytesOf reads).length + 1 →
      fitsUnsigned 64 count := by
    intro count hle
    rw [fitsUnsigned, Bool.and_eq_true, decide_eq_true_eq, decide_eq_true_eq,
      hwidth]
    omega
  refine ⟨first.after_turns, fun s hturns => ?_, fun n raw hline => ?_⟩
  · have hsound := (horder hturns).sound
    have hplace := (horder hturns).aligned.place_le
    have hchunk := (horder hturns).chunkStart_le
    have hoffset := hsound.offset_le
    have hlast := hsound.lastProgress_le
    have hstart := hsound.lineStart_le
    refine ⟨hsound, ?_⟩
    simp only [List.forall_mem_cons]
    exact ⟨hcount (by omega), hcount (by omega), hcount (by omega),
      hcount (by omega), hcount (by omega), List.forall_mem_nil _⟩
  · rw [answer_eq_next] at hline
    obtain ⟨hle, hstop, hlength⟩ :=
      (horder (first.after_turns n)).line_le hline
    exact ⟨hle, hlength, hcount (by omega)⟩

/-- Two lines, read in such a way that no read ends where a line does. -/
def unevenReads : List Read :=
  [.bytes [0x61, 0x62, lineEnd, 0x63, 0x64], .bytes [0x65, 0x66, 0x67],
    .bytes [lineEnd]]

/-- Settings for short reads and a short lead. -/
def narrowSettings : Settings :=
  { Settings.default with leadLimit := 3, fileProgressStep := 6, readSize := 5 }

/-- Two calls tell the first line and the second read, and leave two bytes of
the second line in the lead. The third fills the lead and tells the line. -/
theorem Splitter.counters_sound_of_unevenReads :
    (∀ piece, .bytes piece ∈ unevenReads →
      piece.length ≤ max 1 narrowSettings.readSize) ∧
    (bytesOf unevenReads).length < widthSize 64 - 1 ∧
    let s := (Splitter.start unevenReads 9 narrowSettings).after 2
    s.Sound 3 5 (bytesOf unevenReads) ∧ s.lineStart = 3 ∧ s.place = 5 ∧
    s.offset = 8 ∧ s.lastProgress = 8 ∧ s.lead.reverse = [0x63, 0x64] ∧
    s.next.1 = .ok (some (.line ⟨.between 3 8, [0x63, 0x64, 0x65]⟩)) ∧
    fitsUnsigned 64 (Line.between 3 8).length := by
  have hfits : ∀ piece, .bytes piece ∈ unevenReads →
      piece.length ≤ max 1 narrowSettings.readSize := by
    intro piece hmem
    simp only [unevenReads, List.mem_cons, Read.bytes.injEq,
      List.not_mem_nil, or_false] at hmem
    rcases hmem with rfl | rfl | rfl <;> decide
  have htotal : (bytesOf unevenReads).length < widthSize 64 - 1 := by
    decide +kernel
  obtain ⟨hturns, hsound, hlines⟩ := counters_sound hfits htotal 9
  exact ⟨hfits, htotal, (hsound _ (hturns 2)).1, rfl, rfl, rfl, rfl, rfl, rfl,
    (hlines 2 _ rfl).2.2⟩

end Ridership.Log

import Ridership.Forecast.Error
import Ridership.Log.Line
import Ridership.Settings
import Ridership.Storage.Source

/-!
# Finding lines as the bytes arrive

A splitter goes through the reads of a log once and tells where its lines
lie. It holds no more of the log than one read and the first bytes of the
line under way, its lead. Reads do not care for lines: one may end inside a
line or hold many.

A line is told as soon as its line end is seen. At the regular end a last
line without one is told too, if there is anything of it; after a fault it
is not, for nobody knows how it goes on.
-/

namespace Ridership.Log

open Forecast (ForecastError)
open Storage (Read)

/-- A line with its first bytes. -/
structure RawLine where
  line : Line
  lead : List UInt8
  deriving DecidableEq, Repr

/-- What a splitter tells. -/
inductive SplitEvent where
  /-- So many bytes of so many have been read. -/
  | progress (offset size : Nat)
  | line (raw : RawLine)
  deriving DecidableEq, Repr

/-- The state between two events. -/
structure Splitter where
  /-- The reads to come, while there are any to come. -/
  reads : Option (List Read)
  /-- The bytes of the last read that are not looked at yet. -/
  unread : List UInt8
  /-- The place of the first unread byte. -/
  place : Nat
  /-- The place of the first byte of the last read. -/
  chunkStart : Nat
  /-- The bytes read so far. -/
  offset : Nat
  /-- The place where the line under way begins. -/
  lineStart : Nat
  /-- The first bytes of the line under way, last first. -/
  lead : List UInt8
  /-- How many bytes the lead may still take. -/
  room : Nat
  leadLimit : Nat
  size : Nat
  progressStep : Nat
  /-- The bytes read when progress was last told. -/
  lastProgress : Nat

/-- A splitter before the first read of a log of `size` bytes. -/
def Splitter.start (reads : List Read) (size : Nat) (settings : Settings) :
    Splitter :=
  { reads := some reads, unread := [], place := 0, chunkStart := 0,
    offset := 0, lineStart := 0, lead := [],
    room := settings.leadLimit, leadLimit := settings.leadLimit, size,
    progressStep := settings.fileProgressStep, lastProgress := 0 }

/-- Adds bytes of the line under way to its lead, as far as there is room. -/
def Splitter.extend (s : Splitter) (bytes : List UInt8) : Splitter :=
  let taken := bytes.take s.room
  { s with lead := taken.reverse ++ s.lead, room := s.room - taken.length }

/-- Ends the line under way at a place. -/
def Splitter.endLine (s : Splitter) (stop : Nat) : RawLine × Splitter :=
  (⟨Line.between s.lineStart stop, s.lead.reverse⟩,
    { s with lineStart := stop + 1, lead := [], room := s.leadLimit })

/-- Looks for a line end among the unread bytes. -/
def Splitter.takeLine (s : Splitter) : Option RawLine × Splitter :=
  let before := s.unread.takeWhile (· != 0x0A)
  let stop := s.place + before.length
  match s.unread.dropWhile (· != 0x0A) with
  | _ :: after =>
      let (raw, s) := (s.extend before).endLine stop
      (some raw, { s with unread := after, place := stop + 1 })
  | [] => (none, { s.extend before with unread := [], place := stop })

/-- Takes in a read. -/
def Splitter.fill (s : Splitter) (piece : List UInt8) (reads : List Read) :
    Splitter :=
  { s with
    reads := some reads, unread := piece, place := s.offset,
    chunkStart := s.offset, offset := s.offset + piece.length }

/-- Goes through the reads to come until there is something to tell. -/
def Splitter.advance (s : Splitter) :
    List Read → Except ForecastError (Option SplitEvent) × Splitter
  | [] =>
      let s := { s with reads := none }
      if s.lineStart < s.offset then
        let (raw, s) := s.endLine s.offset
        (.ok (some (.line raw)), s)
      else (.ok none, s)
  | .fault f :: _ => (.error (.streamRead f), { s with reads := none })
  | .bytes piece :: reads =>
      let s := s.fill piece reads
      if s.progressStep ≤ s.offset - s.lastProgress then
        (.ok (some (.progress s.offset s.size)),
          { s with lastProgress := s.offset })
      else
        match s.takeLine with
        | (some raw, s) => (.ok (some (.line raw)), s)
        | (none, s) => s.advance reads

/-- The next event; none when the log has ended or has failed before. -/
def Splitter.next (s : Splitter) :
    Except ForecastError (Option SplitEvent) × Splitter :=
  match s.takeLine with
  | (some raw, s) => (.ok (some (.line raw)), s)
  | (none, s) =>
      match s.reads with
      | none => (.ok none, s)
      | some reads => s.advance reads

/-! ## Every event uses something up -/

/-- The bytes of reads, and one for each read. -/
def readsLoad : List Read → Nat
  | [] => 0
  | .bytes piece :: reads => piece.length + 1 + readsLoad reads
  | .fault _ :: reads => 1 + readsLoad reads

/-- What is still to be gone through. -/
def Splitter.load (s : Splitter) : Nat :=
  s.unread.length + match s.reads with
    | none => 0
    | some reads => 1 + readsLoad reads

theorem Splitter.takeLine_of_none {s s' : Splitter}
    (h : s.takeLine = (none, s')) : s'.unread = [] ∧ s'.reads = s.reads := by
  unfold takeLine at h
  dsimp only at h
  split at h
  · simp at h
  · obtain ⟨-, rfl⟩ := Prod.mk.inj h
    exact ⟨rfl, rfl⟩

theorem Splitter.takeLine_load {s s' : Splitter} {raw : RawLine}
    (h : s.takeLine = (some raw, s')) : s'.load < s.load := by
  unfold takeLine at h
  dsimp only at h
  split at h
  · next b after hafter =>
      obtain ⟨-, rfl⟩ := Prod.mk.inj h
      have hle := (List.dropWhile_suffix (l := s.unread) (· != 0x0A)).length_le
      rw [hafter, List.length_cons] at hle
      simp only [load, endLine, extend]
      omega
  · simp at h

theorem Splitter.advance_load {s s' : Splitter} {reads : List Read}
    {e : SplitEvent} (h : s.advance reads = (.ok (some e), s'))
    (hunread : s.unread = []) : s'.load < 1 + readsLoad reads := by
  induction reads generalizing s with
  | nil =>
      unfold advance at h
      dsimp only at h
      split at h
      · obtain ⟨-, rfl⟩ := Prod.mk.inj h
        simp [endLine, load, hunread, readsLoad]
      · simp at h
  | cons read reads ih =>
      cases read with
      | fault f => simp [advance] at h
      | bytes piece =>
          have hfill : (s.fill piece reads).load
              = piece.length + (1 + readsLoad reads) := rfl
          unfold advance at h
          dsimp only at h
          split at h
          · obtain ⟨-, rfl⟩ := Prod.mk.inj h
            have htold : { s.fill piece reads with
                lastProgress := (s.fill piece reads).offset }.load
                  = (s.fill piece reads).load := rfl
            rw [htold, hfill, readsLoad]
            omega
          · split at h
            · next raw s'' hline =>
                obtain ⟨-, rfl⟩ := Prod.mk.inj h
                have hload := takeLine_load hline
                rw [readsLoad]
                omega
            · next s'' hline =>
                have hload := ih h (takeLine_of_none hline).1
                rw [readsLoad]
                omega

/-- A call that tells something has used something up. -/
theorem Splitter.next_load {s s' : Splitter} {e : SplitEvent}
    (h : s.next = (.ok (some e), s')) : s'.load < s.load := by
  unfold next at h
  split at h
  · next raw s'' hline =>
      obtain ⟨-, rfl⟩ := Prod.mk.inj h
      exact takeLine_load hline
  · next s'' hline =>
      obtain ⟨hunread, hreads⟩ := takeLine_of_none hline
      split at h
      · simp at h
      · next reads hr =>
          have hload : s.load = s.unread.length + (1 + readsLoad reads) := by
            simp only [load, ← hreads, hr]
          have hadvance := advance_load h hunread
          omega

/-- All events to come, behind those of before (last first), up to the end of
the log or a fault. -/
def Splitter.runBehind (before : List SplitEvent) (s : Splitter) :
    List SplitEvent × Except ForecastError Unit :=
  match _hnext : s.next with
  | (.ok none, _) => (before.reverse, .ok ())
  | (.error error, _) => (before.reverse, .error error)
  | (.ok (some e), s') => runBehind (e :: before) s'
termination_by s.load
decreasing_by
  exact next_load _hnext

/-- All events to come, up to the end of the log or a fault. -/
def Splitter.run (s : Splitter) : List SplitEvent × Except ForecastError Unit :=
  s.runBehind []

end Ridership.Log

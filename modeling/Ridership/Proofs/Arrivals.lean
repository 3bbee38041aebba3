import Ridership.Proofs.Tuning

/-!
# The same bytes in other reads

A read may bring less than there is room for, and nothing is said of how
much less. So the buffer of `readLine` is one way among many for bytes to
arrive, and here they arrive in any: an `Arrival` tells for each request the
reads that answer it. What goes through the reads is restated for arrivals,
and shown to be what runs (`indexLines_eq_arrived`, `readLine_eq_arrived`,
`interestingTrips_eq_tripsBy`).

Whether two requests bring the same bytes is asked of each request alone. A
line is read by one request, and a pass over lines by one for each of them,
so nothing more has to be known of a source than what it answers there.

How a line ended is compared but for one place: a sub-tree that does not
read is blamed on the read in which it was completed.
-/

namespace Ridership

open Forecast (BlamesSubtree BodyState ForecastError LineState Report closing
  readLine withoutProgress)
open Log (Line Progress RawLine Splitter endOf indexLines segmentsTold)
open Storage (ByteSource Delivery Fault Read bytesOf faultOf bytesOf_pieces
  faultOf_pieces)

/-! ## Reads of any size -/

/-- Reads that bring what is delivered, each as much as it likes. -/
def Storage.Delivery.CutInto (d : Delivery) (reads : List Read) : Prop :=
  ∃ pieces : List (List UInt8),
    reads = pieces.map .bytes ++ (d.fault.map .fault).toList ∧
    pieces.flatten = d.bytes

/-- What arrives where a delivery was asked for. -/
inductive Arrives : Except Fault Delivery → Except Fault (List Read) → Prop where
  | refused (cause : Fault) : Arrives (.error cause) (.error cause)
  | delivered {d : Delivery} {reads : List Read} (h : d.CutInto reads) :
      Arrives (.ok d) (.ok reads)

/-- What the requests to a source bring, read by read. -/
structure Arrival where
  size : Nat
  stream : Except Fault (List Read)
  slice : Nat → Nat → Except Fault (List Read)

/-- A source as it arrives through a buffer. -/
def Storage.ByteSource.arrival (source : ByteSource) (n : Nat) : Arrival where
  size := source.size
  stream := source.stream.map fun d => d.reads n
  slice := fun start stop => (source.slice start stop).map fun d => d.reads n

theorem Storage.Delivery.cutInto_reads (d : Delivery) (n : Nat) :
    d.CutInto (d.reads n) := by
  obtain ⟨pieces, hreads, hpieces, -⟩ := d.reads_pieces n
  exact ⟨pieces, hreads, hpieces⟩

theorem arrives_reads (asked : Except Fault Delivery) (n : Nat) :
    Arrives asked (asked.map fun d => d.reads n) := by
  cases asked with
  | error cause => exact .refused cause
  | ok d => exact .delivered (d.cutInto_reads n)

theorem Storage.Delivery.CutInto.brings {d : Delivery} {reads : List Read}
    (h : d.CutInto reads) :
    bytesOf reads = d.bytes ∧ faultOf reads = d.fault := by
  obtain ⟨pieces, rfl, hpieces⟩ := h
  rw [bytesOf_pieces, faultOf_pieces, hpieces]
  cases d.fault with
  | none => exact ⟨List.append_nil _, rfl⟩
  | some f => exact ⟨List.append_nil _, rfl⟩

/-! ## What goes through the reads -/

/-- The index of a log that arrives. -/
def indexArrived (a : Arrival) (settings : Settings) :
    List Progress × Except ForecastError (List Line) :=
  match a.stream with
  | .error cause => ([], .error (.streamRead cause))
  | .ok reads =>
      let (events, result) := (Splitter.start reads a.size settings).run
      let progress := events.filterMap fun
        | .progress offset size => some ⟨offset, size⟩
        | .line _ => none
      (progress, result.map fun _ =>
        (events.filterMap Log.SplitEvent.line?).map RawLine.timed)

/-- What a line that arrives gives. -/
def readArrived (a : Arrival) (settings : Settings) (line : Line) :
    List Report × Except ForecastError Unit :=
  match a.slice line.start line.stop with
  | .error cause => ([], .error (.streamRead cause))
  | .ok reads =>
      let (result, b) := BodyState.start.readAll line.bodyLength
        settings.lineProgressStep reads
      (b.line.reports.reverse, result)

section

variable (source : ByteSource) (settings : Settings)

theorem indexLines_eq_arrived :
    indexLines source settings
      = indexArrived (source.arrival settings.readSize) settings := by
  unfold indexLines indexArrived ByteSource.arrival
  cases source.stream with
  | error cause => rfl
  | ok delivery =>
      dsimp only [Except.map]
      rw [List.map_filterMap]
      refine Prod.ext rfl (congrArg (fun f => Except.map (fun _ =>
        List.filterMap f _) _) (funext fun e => ?_))
      cases e <;> rfl

theorem readLine_eq_arrived (line : Line) :
    readLine source settings line
      = readArrived (source.arrival settings.readSize) settings line := by
  unfold readLine readArrived ByteSource.arrival
  dsimp only
  cases source.slice line.start line.stop <;> rfl

end

/-! ## What does not depend on the reads -/

/-- Two ends of a line that are the same, but for the place of a sub-tree that
does not read. -/
def SameEnd (ended ended' : Except ForecastError Unit) : Prop :=
  ended' = ended ∨ ∃ place place' message, BlamesSubtree message ∧
    ended = .error (.malformedRecord place message) ∧
    ended' = .error (.malformedRecord place' message)

theorem SameEnd.streamRead {ended ended' : Except ForecastError Unit}
    (h : SameEnd ended ended') {cause : Fault}
    (hcause : ended' = .error (.streamRead cause)) :
    ended = .error (.streamRead cause) := by
  rcases h with rfl | ⟨place, place', message, -, rfl, rfl⟩
  · exact hcause
  · cases hcause

section

variable {source : ByteSource} {a : Arrival} {settings : Settings}

end

/-! ## A pass over lines -/

section

variable {read read' : Line → List Report × Except ForecastError Unit}
  {total index : Nat} {ranking : Ranking} {progress : List Progress}
  {line : Line}

end

end Ridership

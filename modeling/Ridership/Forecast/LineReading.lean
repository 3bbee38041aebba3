import Ridership.Forecast.Assembler
import Ridership.Json.Scanner
import Ridership.Log.Line
import Ridership.Settings
import Ridership.Storage.Source

/-!
# Reading the forecasts of a line

The body of a line is read piece by piece and never held as a whole. Its
events go to a selector that picks what belongs to trips, and the picked
sub-trees go to an assembler. A forecast is reported as soon as its edges
are complete, so what was reported before a fault stands; but only a body
read to its end without one is reported done.

A sub-tree that does not read is blamed on the piece in which it was
completed.
-/

namespace Ridership.Forecast

open Json (Event Scanner Selector ScanFault)
open Log (Line)
open Storage (ByteSource Read)

/-- How many containers enclose the parts of a trip. -/
def tripDepth : Nat := 4

/-- The keys of the parts of a trip. -/
def tripKeys : List String :=
  ["trip", "edges", "primary_station", "secondary_station", "service_infos"]

/-- Whether a key belongs to a trip. -/
def isTripKey (key : String) (depth : Nat) : Bool :=
  depth = tripDepth && tripKeys.contains key

/-- What is reported of a line. -/
inductive Report where
  | outcome (o : Outcome)
  /-- So many bytes of so many have been read. -/
  | progress (consumed size : Nat)
  /-- The line was read to its end. -/
  | done

/-- What is known of a line under way; the reports are given last first. -/
structure LineState where
  selector : Selector
  assembler : Assembler
  reports : List Report

/-- A line before its first byte. -/
def LineState.start : LineState := ⟨.start, .start, []⟩

/-- Takes an event of a piece that begins at `offset`. -/
def LineState.see (offset : Nat) (x : LineState) (e : Event) (depth : Nat) :
    Except ForecastError Unit × LineState :=
  match x.selector.accept isTripKey e depth with
  | (selector, none) => (.ok (), { x with selector })
  | (selector, some found) =>
      match x.assembler.accept found offset with
      | (assembler, .error error) =>
          (.error error, { x with selector, assembler })
      | (assembler, .ok none) => (.ok (), { x with selector, assembler })
      | (assembler, .ok (some o)) =>
          (.ok (), { selector, assembler, reports := .outcome o :: x.reports })

/-- A text refused, as an error of its line. -/
def ForecastError.ofScan (fault : ScanFault) : ForecastError :=
  .malformedRecord fault.offset fault.error.message

/-- A body under way. -/
structure BodyState where
  scanner : Scanner
  line : LineState
  /-- The bytes read. -/
  consumed : Nat
  /-- The bytes read when progress was last told. -/
  lastProgress : Nat

/-- A body before its first byte. -/
def BodyState.start : BodyState := ⟨.start, .start, 0, 0⟩

/-- Takes a piece. -/
def BodyState.feed (b : BodyState) (piece : List UInt8) :
    Except ForecastError Unit × BodyState :=
  let (result, line, scanner) :=
    b.scanner.feed (LineState.see b.consumed) ForecastError.ofScan piece b.line
  (result, { b with line, scanner })

/-- Takes the end. -/
def BodyState.finish (b : BodyState) : Except ForecastError Unit × BodyState :=
  let (result, line, scanner) :=
    b.scanner.finish (LineState.see b.consumed) ForecastError.ofScan b.line
  (result, { b with line, scanner })

/-- Adds a report. -/
def BodyState.report (b : BodyState) (r : Report) : BodyState :=
  { b with line := { b.line with reports := r :: b.line.reports } }

/-- Counts a piece, and reports progress when it is due. -/
def BodyState.count (b : BodyState) (size step length : Nat) : BodyState :=
  let b := { b with consumed := b.consumed + length }
  if step ≤ b.consumed - b.lastProgress then
    { b with lastProgress := b.consumed }.report (.progress b.consumed size)
  else b

/-- Goes through the reads of a body of `size` bytes. -/
def BodyState.readAll (size step : Nat) (b : BodyState) :
    List Read → Except ForecastError Unit × BodyState
  | [] =>
      match b.finish with
      | (.ok (), b) => (.ok (), b.report .done)
      | (.error error, b) => (.error error, b)
  | .fault cause :: _ => (.error (.streamRead cause), b)
  | .bytes piece :: reads =>
      match b.feed piece with
      | (.ok (), b) => (b.count size step piece.length).readAll size step reads
      | (.error error, b) => (.error error, b)

/-- The reports of a line, in order, and how its reading ended. -/
def readLine (source : ByteSource) (settings : Settings) (line : Line) :
    List Report × Except ForecastError Unit :=
  match source.slice line.start line.stop with
  | .error cause => ([], .error (.streamRead cause))
  | .ok delivery =>
      let (result, b) :=
        BodyState.start.readAll line.bodyLength settings.lineProgressStep
          (delivery.reads settings.readSize)
      (b.line.reports.reverse, result)

end Ridership.Forecast

import Ridership.Log.SnapshotTime
import Ridership.Log.Splitter

/-!
# The lines of a log
-/

namespace Ridership.Log

open Forecast (ForecastError)
open Storage (ByteSource)

/-- A report of progress: so much of so much. -/
structure Progress where
  done : Nat
  total : Nat
  deriving DecidableEq, Repr

/-- The lines of a log with their times, and the progress told on the way. A
fault leaves no lines. -/
def indexLines (source : ByteSource) (settings : Settings) :
    List Progress × Except ForecastError (List Line) :=
  match source.stream with
  | .error cause => ([], .error (.streamRead cause))
  | .ok delivery =>
      let reads := delivery.reads settings.readSize
      let (events, result) := (Splitter.start reads source.size settings).run
      let progress := events.filterMap fun
        | .progress offset size => some ⟨offset, size⟩
        | .line _ => none
      let lines := events.filterMap fun
        | .progress _ _ => none
        | .line raw =>
            some { raw.line with systemTime := snapshotTime raw.lead }
      (progress, result.map fun _ => lines)

end Ridership.Log

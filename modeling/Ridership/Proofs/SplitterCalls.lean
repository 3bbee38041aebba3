import Ridership.Proofs.Arrivals
import Ridership.Proofs.LineIndex

/-!
# Call by call

A run of a splitter stops at the first answer that is no event. Nobody has to
stop there, and what the calls behind it answer is not seen in a run. Here the
calls are counted, and each has an answer.

A splitter that has come to the end stays there, so all that matters is what is
answered up to then: the events of the run, and one error if the reads end with
a fault (`Splitter.Faces.answer_eq`). Which lines are among the events is known
from runs. What remains is to say where a told segment lies, which is the same
with and without a fault, as the segments told before a fault are the first of
all segments of the text.
-/

namespace Ridership.Log

open Forecast (ForecastError)
open Storage (ByteSource Delivery Fault Read bytesOf faultOf)

/-! ## Answers -/

/-- The answer of a call, counted from zero. -/
def Splitter.answer (s : Splitter) :
    Nat → Except ForecastError (Option SplitEvent)
  | 0 => s.next.1
  | n + 1 => s.next.2.answer n

section

variable {s : Splitter}

theorem Splitter.answer_zero {s' : Splitter}
    {answer : Except ForecastError (Option SplitEvent)}
    (h : s.next = (answer, s')) : s.answer 0 = answer := by
  rw [Splitter.answer, h]

theorem Splitter.answer_succ {s' : Splitter}
    {answer : Except ForecastError (Option SplitEvent)}
    (h : s.next = (answer, s')) (n : Nat) :
    s.answer (n + 1) = s'.answer n := by
  rw [Splitter.answer, h]

/-- Behind the end there is nothing, however often it is asked for. -/
theorem Splitter.Exhausted.answer (h : s.Exhausted) (n : Nat) :
    s.answer n = .ok none := by
  induction n generalizing s with
  | zero =>
      obtain ⟨s', hnext, -⟩ := h.next
      exact answer_zero hnext
  | succ n ih =>
      obtain ⟨s', hnext, h'⟩ := h.next
      rw [answer_succ hnext]
      exact ih h'

end

end Ridership.Log

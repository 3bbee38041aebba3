import Ridership.Json.Scanner

/-!
# The time of a snapshot

A line says in its `system_time` when its snapshot was taken, and says so
early; the first bytes of the line are enough. They are usually cut in the
middle of a token, so whatever is wrong with them merely ends the search.

Each key of that name, at whatever depth, starts afresh: the number that
follows it is the time, and anything else that follows it makes the time
unknown again. Since a number counts only once it is complete, a cut can
hide a time but never shorten one.
-/

namespace Ridership.Log

open Json (Event Scanner)

/-- A number as 64 bits with a sign: what is beyond them becomes the least or
the greatest. -/
def clamped (x : Float) : Int :=
  x.toInt64.toInt

/-- The seconds that a number literal tells. Whole numbers of 64 bits are taken
exactly; all other numbers are read as binary64 and cut towards zero. -/
def seconds? (literal : String) : Option Int := do
  let n ← Decimal.Numeral.read? literal.toList
  let magnitude : Int := Decimal.ofDigits n.whole
  let value := if n.negative then -magnitude else magnitude
  if n.fraction.isEmpty && n.exponent.isNone && fitsSigned 64 value then
    return value
  else
    return clamped n.toFloat

/-- What has been seen of the time. -/
structure TimeSearch where
  /-- Whether the last event was the key. -/
  awaiting : Bool
  time : Option Int
  deriving DecidableEq, Repr

/-- Nothing seen yet. -/
def TimeSearch.start : TimeSearch := ⟨false, none⟩

/-- Takes an event. -/
def TimeSearch.see (t : TimeSearch) : Event → TimeSearch
  | .key name => { t with awaiting := name = "system_time" }
  | .number literal => if t.awaiting then ⟨false, seconds? literal⟩ else t
  | _ => if t.awaiting then ⟨false, none⟩ else t

/-- The time of the snapshot whose line begins with these bytes. -/
def snapshotTime (lead : List UInt8) : Option Int :=
  let text := Text.Utf8.encode (Text.Utf8.lossy lead)
  let listen (t : TimeSearch) (e : Event) (_ : Nat) :
      Except Unit Unit × TimeSearch := (.ok (), t.see e)
  let (_, t, _) := Scanner.start.feed listen (fun _ => ()) text .start
  t.time

end Ridership.Log

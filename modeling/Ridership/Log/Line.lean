import Ridership.Json.Decode
import Ridership.Json.RecordText

/-!
# Lines of a log
-/

namespace Ridership.Log

open Json (Field TextFault Value)

/-- Where a line lies in its log. -/
structure Line where
  /-- The place of its first byte. -/
  start : Nat
  /-- The place of the line end behind it, or the end of a log
  that lacks one. -/
  stop : Nat
  /-- The bytes of the line with its line end. -/
  length : Nat
  /-- The time of the snapshot on the line, in seconds, if it is known. -/
  systemTime : Option Int
  deriving DecidableEq, Repr

/-- The line between two places. -/
def Line.between (start stop : Nat) : Line :=
  { start, stop, length := stop - start + 1, systemTime := none }

/-- The bytes of the line without its line end. -/
def Line.bodyLength (l : Line) : Nat :=
  l.stop - l.start

/-- The seconds that a calendar date can be given for: the years from -262143
to 262142. -/
def calendarRange : Int × Int := (-8334601228800, 8210266876799)

/-- The line's time, if it is known and has a calendar date. -/
def Line.calendarTime (l : Line) : Option Int :=
  l.systemTime.filter fun t => calendarRange.1 ≤ t && t ≤ calendarRange.2

def Line.toValue (l : Line) : Value :=
  .object ([("begin", .number (.whole l.start)),
    ("end", .number (.whole l.stop)), ("length", .number (.whole l.length))]
    ++ Json.writtenIf "systemTime" (fun t => .number (.whole t)) l.systemTime)

/-- The fields of a line as they are written. -/
def Line.fields : List Field :=
  [⟨"begin", .natural, false⟩, ⟨"end", .natural, false⟩,
    ⟨"length", .natural, false⟩, ⟨"systemTime", .integerOrNull, true⟩]

/-- A whole number among members, if it is there. -/
def wholeMember? (name : String) (members : List (String × Value)) :
    Option Int :=
  match Json.member? name members with
  | some (.number (.whole n)) => some n
  | _ => none

/-- Reads the text of a line. Nothing but blanks may follow it. -/
def Line.ofText (bytes : List UInt8) : Except TextFault Line := do
  let (members, rest) ← Json.readRecord fields bytes
  if !(Json.behindBlanks rest).isEmpty then throw .malformed
  match wholeMember? "begin" members, wholeMember? "end" members,
      wholeMember? "length" members with
  | some start, some stop, some length =>
      return ⟨start.toNat, stop.toNat, length.toNat,
        wholeMember? "systemTime" members⟩
  | _, _, _ => throw .mismatch

end Ridership.Log

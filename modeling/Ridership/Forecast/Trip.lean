import Ridership.Json.Decode

/-!
# Trips and the services they run as

Only a few fields of a trip matter here, and producers do not agree on their
types; so they are kept as they were written, and what they say is worked
out where it is needed.
-/

namespace Ridership.Forecast

open Json (Value Reader DecodeFault)

/-- The trip that a forecast is about. -/
structure Trip where
  trainNumber : Option Value
  /-- All other fields, as they were. -/
  extra : List (String × Value)

/-- A service that a trip runs as. -/
structure ServiceInfo where
  name : Option Value
  trainNumber : Option Value
  /-- The name of a line, or a flag. -/
  line : Option Value
  extra : List (String × Value)

/-! ## Names for people -/

/-- What a field says: a text itself, any other value by its JSON text, and
null nothing. -/
def fieldText : Option Value → Option String
  | none => none
  | some .null => none
  | some (.string s) => some s
  | some v => some v.text

/-- Whether a field says yes: everything does but null, false, the empty text
and zero. -/
def isTruthy : Option Value → Bool
  | none => false
  | some .null => false
  | some (.bool b) => b
  | some (.string s) => s ≠ ""
  | some (.number n) => n.toFloat != 0.0
  | some (.array _) => true
  | some (.object _) => true

/-- Whether a service is a line. -/
def ServiceInfo.isLine (s : ServiceInfo) : Bool :=
  isTruthy s.line

/-- A service by its name, and a line with its train number as well. -/
def ServiceInfo.display (s : ServiceInfo) : String :=
  let name := (fieldText s.name).getD ""
  if s.isLine then
    let number := (fieldText s.trainNumber).getD "0"
    s!"{name} [{number}]"
  else name

/-- A trip by the services it runs as. Without any it goes by its train number,
and without that by zero. -/
def Trip.displayName (t : Trip) : Option (List ServiceInfo) → String
  | some (s :: rest) =>
      String.intercalate ", " ((s :: rest).map ServiceInfo.display)
  | _ =>
      if isTruthy t.trainNumber then (fieldText t.trainNumber).getD ""
      else "0"

/-! ## Reading and writing -/

def Trip.read : Reader Trip
  | .object members => do
      let trainNumber ← Json.optionalField "train_nr" none Json.readAny members
      return { trainNumber, extra := Json.otherMembers ["train_nr"] members }
  | v => .error (.wrongType v (.record "Trip"))

def Trip.toValue (t : Trip) : Value :=
  .object (Json.writtenIf "train_nr" id t.trainNumber ++ t.extra)

def ServiceInfo.read : Reader ServiceInfo
  | .object members => do
      let name ← Json.optionalField "name" none Json.readAny members
      let trainNumber ← Json.optionalField "train_nr" none Json.readAny members
      let line ← Json.optionalField "line" none Json.readAny members
      return { name, trainNumber, line,
               extra := Json.otherMembers ["name", "train_nr", "line"] members }
  | v => .error (.wrongType v (.record "ServiceInfo"))

/-- A service is written with its name and its train number even when
it has none. -/
def ServiceInfo.toValue (s : ServiceInfo) : Value :=
  .object ([("name", Json.orNull id s.name),
      ("train_nr", Json.orNull id s.trainNumber)]
    ++ Json.writtenIf "line" id s.line ++ s.extra)

end Ridership.Forecast

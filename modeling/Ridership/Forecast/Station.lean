import Ridership.Json.Decode

/-!
# Stations
-/

namespace Ridership.Forecast

open Json (Value Reader DecodeFault)

/-- What tells stations apart. Producers write numbers or texts; a number and a
text are never the same station. -/
inductive StationId where
  | number (n : Int)
  | text (s : String)
  deriving DecidableEq, Repr

/-- Reads a station's identity: a whole number of 64 bits with a
sign, or a text. -/
def StationId.read : Reader StationId
  | .number (.whole n) =>
      if fitsSigned 64 n then .ok (.number n)
      else .error (.noVariant "StationId")
  | .string s => .ok (.text s)
  | _ => .error (.noVariant "StationId")

def StationId.toValue : StationId → Value
  | .number n => .number (.whole n)
  | .text s => .string s

/-- A station as an edge or a trip mentions it. -/
structure Station where
  id : StationId
  name : Option String
  /-- All other fields, as they were. -/
  extra : List (String × Value)

def Station.check : String → Value → Except DecodeFault Unit
  | "id", v => Json.reads StationId.read v
  | "name", v => Json.reads (Json.readNullable Json.readText) v
  | _, _ => .ok ()

def Station.read : Reader Station
  | .object members => do
      Json.checkFields Station.check members
      let id ← Json.requiredField "id" StationId.read members
      let name ←
        Json.optionalField "name" none (Json.readNullable Json.readText)
          members
      return { id, name, extra := Json.otherMembers ["id", "name"] members }
  | v => .error (.wrongType v (.record "Station"))

/-- A station is written with its own fields first. -/
def Station.toValue (s : Station) : Value :=
  .object ([("id", s.id.toValue)] ++ Json.writtenIf "name" Value.string s.name
    ++ s.extra)

end Ridership.Forecast

import Ridership.Json.Value
import Ridership.Text.Quoted
import Ridership.Width

/-!
# Reading records out of values

A record is read from an object by the names of its fields. When several
things are wrong, the one to be told is fixed: fields that do not read are
looked for in the order of the object, and only then fields that are
missing, in the order of the record.
-/

namespace Ridership.Json

/-- What a field may have to be. -/
inductive Shape where
  /-- A record of this name. -/
  | record (name : String)
  | list
  | text
  /-- A whole number of this many bits, without a sign. -/
  | natural (bits : Nat)
  /-- A binary number of this many bits. -/
  | binary (bits : Nat)
  deriving DecidableEq, Repr

/-- A shape in words. -/
def Shape.words : Shape → String
  | .record name => s!"struct {name}"
  | .list => "a sequence"
  | .text => "a string"
  | .natural bits => s!"u{bits}"
  | .binary bits => s!"f{bits}"

/-- A cause for refusing a value. -/
inductive DecodeFault where
  | wrongType (found : Value) (expected : Shape)
  /-- A whole number outside the range of its field. -/
  | outOfRange (n : Int) (expected : Shape)
  | missingField (name : String)
  /-- A record written as an array that ends too early. -/
  | tooFew (length : Nat) (expected : Shape) (fields : Nat)
  /-- A record written as an array that goes on too long. -/
  | tooMany (length : Nat)
  /-- None of the ways to write something of this name. -/
  | noVariant (name : String)

/-- A value's kind, for messages. -/
def Value.kind : Value → String
  | .null => "null"
  | .bool true => "boolean `true`"
  | .bool false => "boolean `false`"
  | .number (.whole n) => s!"integer `{n}`"
  | .number (.float x) => "floating point `" ++ (Number.float x).text ++ "`"
  | .string s => "string " ++ Text.quoted s
  | .array _ => "sequence"
  | .object _ => "map"

/-- The words for a fault. -/
def DecodeFault.message : DecodeFault → String
  | .wrongType found expected =>
      s!"invalid type: {found.kind}, expected {expected.words}"
  | .outOfRange n expected =>
      s!"invalid value: integer `{n}`, expected {expected.words}"
  | .missingField name => s!"missing field `{name}`"
  | .tooFew length expected fields =>
      s!"invalid length {length}, expected {expected.words} with {fields} elements"
  | .tooMany length =>
      s!"invalid length {length}, expected fewer elements in array"
  | .noVariant name =>
      s!"data did not match any variant of untagged enum {name}"

/-- Reads something out of a value. -/
abbrev Reader (α : Type) := Value → Except DecodeFault α

/-- Reads a text. -/
def readText : Reader String
  | .string s => .ok s
  | v => .error (.wrongType v .text)

/-- Reads a whole number of 32 bits. -/
def readNatural32 : Reader UInt32
  | .number (.whole n) =>
      if fitsUnsigned 32 n then .ok (UInt32.ofNat n.toNat)
      else .error (.outOfRange n (.natural 32))
  | v => .error (.wrongType v (.natural 32))

/-- Reads any number as binary64. -/
def readBinary64 : Reader Float
  | .number n => .ok n.toFloat
  | v => .error (.wrongType v (.binary 64))

/-- Reads something that may be null. -/
def readNullable {α : Type} (read : Reader α) : Reader (Option α)
  | .null => .ok none
  | v => (read v).map some

/-- Reads anything but null as it is. -/
def readAny : Reader (Option Value)
  | .null => .ok none
  | v => .ok (some v)

/-- Reads an array item by item. -/
def readList {α : Type} (read : Reader α) : Reader (List α)
  | .array items => items.mapM read
  | v => .error (.wrongType v .list)

/-- Reads the fields of an object, all for their faults alone. -/
def checkFields (check : String → Value → Except DecodeFault Unit)
    (members : List (String × Value)) : Except DecodeFault Unit :=
  members.forM fun member => check member.1 member.2

/-- Whether a value reads. -/
def reads {α : Type} (read : Reader α) (v : Value) : Except DecodeFault Unit :=
  (read v).map fun _ => ()

/-- Reads a field that must be there. -/
def requiredField {α : Type} (name : String) (read : Reader α)
    (members : List (String × Value)) : Except DecodeFault α :=
  match member? name members with
  | some v => read v
  | none => .error (.missingField name)

/-- Reads a field that may be missing, with what it means then. -/
def optionalField {α : Type} (name : String) (missing : α) (read : Reader α)
    (members : List (String × Value)) : Except DecodeFault α :=
  match member? name members with
  | some v => read v
  | none => .ok missing

/-- The members that are none of the named fields. -/
def otherMembers (names : List String) (members : List (String × Value)) :
    List (String × Value) :=
  members.filter fun member => !names.contains member.1

/-- A field that is written only when it has a value. -/
def writtenIf {α : Type} (name : String) (write : α → Value) :
    Option α → List (String × Value)
  | some a => [(name, write a)]
  | none => []

/-- A value that is written as null when it is missing. -/
def orNull {α : Type} (write : α → Value) : Option α → Value
  | some a => write a
  | none => .null

end Ridership.Json

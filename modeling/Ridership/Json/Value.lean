import Ridership.Decimal.Layout

/-!
# JSON values and their text

Objects keep their members in order. A value built from a text never repeats
a key: `insert` gives a key that comes again its first place and its last
value. A value built to be written may repeat one, and the text then shows
both, so what is written is exactly what the members say.

The text is compact. `write` puts a value behind a text that is already
there, which keeps the work proportional to what is written; `text` starts
from nothing.
-/

namespace Ridership.Json

/-- A JSON number. Whole numbers that fit in 64 bits are exact, all others are
binary64. -/
inductive Number where
  | whole (n : Int)
  | float (x : Float)

/-- A JSON value. -/
inductive Value where
  | null
  | bool (b : Bool)
  | number (n : Number)
  | string (text : String)
  | array (items : List Value)
  | object (members : List (String × Value))

/-- An object's members after `key` got a value: a key that is there
keeps its place. -/
def insert (key : String) (value : Value) :
    List (String × Value) → List (String × Value)
  | [] => [(key, value)]
  | member :: rest =>
      if member.1 = key then (key, value) :: rest
      else member :: insert key value rest

/-- The value of a key, the first if there are several. -/
def member? (key : String) (members : List (String × Value)) : Option Value :=
  (members.find? fun member => member.1 = key).map Prod.snd

/-- How JSON texts write numbers that are not whole: a point in every
positional number, an exponent below `0.00001` and from `1e+16` on, and `null`
for what has no literal. -/
def numberStyle : Decimal.Style :=
  { tie := .even, positional := some (-5, 15), wholeMark := ".0",
    infinite := "null", notANumber := "null" }

/-- The literal of a number. -/
def Number.text : Number → String
  | .whole n => toString n
  | .float x => if x.isFinite then numberStyle.render x else "null"

/-- The number as binary64; a whole number is rounded to the nearest. -/
def Number.toFloat : Number → Float
  | .whole n => Float.ofInt n
  | .float x => x

/-- One digit of a `\u` escape. -/
def hexDigit (n : Nat) : Char :=
  Nat.digitChar (n % 16)

/-- A character of a string as it is written. Quotes, backslashes and control
characters are escaped, and nothing else is. -/
def escape (c : Char) : List Char :=
  match c with
  | '"' => ['\\', '"']
  | '\\' => ['\\', '\\']
  | '\x08' => ['\\', 'b']
  | '\t' => ['\\', 't']
  | '\n' => ['\\', 'n']
  | '\x0c' => ['\\', 'f']
  | '\r' => ['\\', 'r']
  | c =>
      if c.toNat < 0x20 then
        ['\\', 'u', '0', '0', hexDigit (c.toNat / 16), hexDigit c.toNat]
      else [c]

/-- Puts the characters of a string, escaped, behind a text. -/
def writeChars (out : String) : List Char → String
  | [] => out
  | c :: rest => writeChars ((escape c).foldl String.push out) rest

/-- Puts a string in quotes behind a text. -/
def writeString (out : String) (s : String) : String :=
  (writeChars (out.push '"') s.toList).push '"'

mutual

/-- Puts a value behind a text. -/
def Value.write (out : String) : Value → String
  | .null => out ++ "null"
  | .bool true => out ++ "true"
  | .bool false => out ++ "false"
  | .number n => out ++ n.text
  | .string s => writeString out s
  | .array [] => out ++ "[]"
  | .array (item :: rest) =>
      (writeItems (item.write (out.push '[')) rest).push ']'
  | .object [] => out ++ "\x7b\x7d"
  | .object ((key, value) :: rest) =>
      (writeMembers
        (value.write ((writeString (out.push '\x7b') key).push ':'))
        rest).push '\x7d'

/-- Puts the items after the first behind a text. -/
def writeItems (out : String) : List Value → String
  | [] => out
  | item :: rest => writeItems (item.write (out.push ',')) rest

/-- Puts the members after the first behind a text. -/
def writeMembers (out : String) : List (String × Value) → String
  | [] => out
  | (key, value) :: rest =>
      writeMembers (value.write ((writeString (out.push ',') key).push ':'))
        rest

end

/-- The compact text of a value. -/
def Value.text (v : Value) : String :=
  v.write ""

end Ridership.Json

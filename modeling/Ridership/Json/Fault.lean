import Ridership.Text.Utf8

/-!
# What can be wrong with a JSON text

A `Fault` is a cause and knows nothing of where it was met. A `SyntaxError`
is a fault with its place: a line, and the columns of the bytes to blame.
Lines are counted between tokens only, so a column may lie far to the right
when a string holds line ends.
-/

namespace Ridership.Json

/-- A cause for refusing a text. -/
inductive Fault where
  /-- A byte that begins no token. -/
  | strayByte (b : UInt8)
  /-- Letters that are not the one word that begins like them. -/
  | wordExpected (word : String)
  /-- A number whose first digit is none. -/
  | numberStart (b : UInt8)
  /-- A point without a digit behind it. -/
  | fractionStart (b : UInt8)
  /-- An exponent mark with neither a sign nor a digit behind it. -/
  | exponentStart (b : UInt8)
  /-- A signed exponent without a digit. -/
  | exponentDigit (b : UInt8)
  /-- A control character inside a string. -/
  | controlInString (b : UInt8)
  /-- A backslash before a character that it cannot escape. -/
  | unknownEscape (b : UInt8)
  /-- A character among the four of a `\u` escape that is no
  hexadecimal digit. -/
  | escapeDigit (b : UInt8)
  /-- The second half of a surrogate pair in the place of the first. -/
  | notHighSurrogate (unit : Nat)
  /-- The first half of a surrogate pair with no escape behind it. -/
  | loneHighSurrogate (unit : Nat)
  /-- An escape behind the first half of a surrogate pair that is no
  second half. -/
  | notLowSurrogate (unit : Nat)
  /-- Bytes in a string that spell no characters. -/
  | notUtf8 (fault : Text.Utf8.Fault)
  /-- The text ends inside a token. -/
  | endInToken
  /-- The text ends where a value has to come. -/
  | endForValue
  /-- Something follows the value that makes up the text. -/
  | secondRoot
  | strayCloseArray
  | strayCloseObject
  | strayComma
  | strayColon
  /-- A comma with nothing behind it. -/
  | trailingComma
  /-- A key that is no string, or that no colon follows. -/
  | keyNotString
  /-- A member that is followed by neither a comma nor the end of its object. -/
  | memberNotSeparated
  /-- An item that is followed by neither a comma nor the end of its array. -/
  | itemNotSeparated
  /-- Containers nested deeper than is allowed. -/
  | tooDeep (limit : Nat)
  deriving DecidableEq, Repr

/-- A byte as the character with its number, for messages. -/
def byteText (b : UInt8) : String :=
  String.singleton (Char.ofNat b.toNat)

/-- A number in upper-case hexadecimal digits. -/
def upperHex (n : Nat) : String :=
  String.ofList ((Nat.toDigits 16 n).map Char.toUpper)

/-- The words for a fault. -/
def Fault.message : Fault → String
  | .strayByte b =>
      if b < 0x80 then s!"Unexpected char: '{byteText b}'"
      else "Unexpected byte: \\x" ++ upperHex b.toNat
  | .wordExpected word => s!"{word} expected"
  | .numberStart b => s!"A number is not allowed to start with '{byteText b}'"
  | .fractionStart b =>
      s!"A number fractional part must start with a digit and not '{byteText b}'"
  | .exponentStart b =>
      s!"A number exponential part must start with +, - or a digit, '{byteText b}' found"
  | .exponentDigit b =>
      s!"A number exponential part must contain at least a digit, '{byteText b}' found"
  | .controlInString b => s!"'{byteText b}' is not allowed in JSON strings"
  | .unknownEscape b =>
      "'\\" ++ byteText b ++ "' is not a valid escape sequence"
  | .escapeDigit b =>
      s!"Unexpected character in a unicode escape: '{byteText b}'"
  | .notHighSurrogate unit =>
      "\\u" ++ upperHex unit ++ " is not a valid high surrogate"
  | .loneHighSurrogate unit =>
      "\\u" ++ upperHex unit
        ++ " is a high surrogate and should be followed by a low surrogate \\uXXXX"
  | .notLowSurrogate unit =>
      "\\u" ++ upperHex unit ++ " is not a valid low surrogate"
  | .notUtf8 fault => "Invalid UTF-8: " ++ fault.message
  | .endInToken => "Unexpected end of file"
  | .endForValue => "Unexpected end of file, a value was expected"
  | .secondRoot => "The JSON already contains one root element"
  | .strayCloseArray => "Unexpected closing square bracket, no array to close"
  | .strayCloseObject => "Unexpected closing curly bracket, no array to close"
  | .strayComma => "Unexpected comma, no values to separate"
  | .strayColon => "Unexpected colon, no key to follow"
  | .trailingComma => "Trailing commas are not allowed"
  | .keyNotString => "Object keys must be strings"
  | .memberNotSeparated =>
      "Object values must be followed by a comma to add a new value or a "
        ++ "curly bracket to end the object"
  | .itemNotSeparated =>
      "Array values must be followed by a comma to add a new value or a "
        ++ "squared bracket to end the array"
  | .tooDeep limit => s!"Max stack size of {limit} reached on an object opening"

/-- A place in a text: bytes before it, line ends before it, and the place
where its line begins. -/
structure Position where
  offset : Nat
  line : Nat
  lineStart : Nat
  deriving DecidableEq, Repr

/-- The beginning of a text. -/
def Position.start : Position := ⟨0, 0, 0⟩

/-- The place `n` bytes further on in the same line. -/
def Position.advance (p : Position) (n : Nat) : Position :=
  { p with offset := p.offset + n }

/-- The place behind a line end of one byte. -/
def Position.newLine (p : Position) : Position :=
  ⟨p.offset + 1, p.line + 1, p.offset + 1⟩

/-- The place behind one more byte of the line end just passed. -/
def Position.stretchLine (p : Position) : Position :=
  ⟨p.offset + 1, p.line, p.offset + 1⟩

/-- A fault with its line and its columns, all counted from zero; `last` is the
column behind it. -/
structure SyntaxError where
  fault : Fault
  line : Nat
  first : Nat
  last : Nat
  deriving DecidableEq, Repr

/-- Blames the bytes from `first` up to `last`, counted from `p`. -/
def Position.blame (p : Position) (fault : Fault) (first last : Nat) :
    SyntaxError :=
  ⟨fault, p.line, max (p.offset + first) p.lineStart - p.lineStart,
    p.offset + last - p.lineStart⟩

/-- The words for an error: the place, counted from one, and the fault. -/
def SyntaxError.message (e : SyntaxError) : String :=
  let place :=
    if e.last ≤ e.first + 1 then s!"column {e.first + 1}"
    else s!"between columns {e.first + 1} and column {e.last + 1}"
  s!"Parser error at line {e.line + 1} {place}: {e.fault.message}"

end Ridership.Json

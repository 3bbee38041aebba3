import Ridership.Json.Fault

/-!
# Tokens of a JSON text that is still arriving

`Token.read` looks at the bytes at hand and tells what they begin with: a
token, a fault, or something that more bytes may still change. It never
decides early. What it has told of some bytes it would tell of the same
bytes with more behind them, and that is why a text may arrive in any parts.
Only when the text is ending does the end itself settle a number.

A string is read to its closing quote even when something is wrong in it,
and then the first thing wrong is told; so after a fault the reading goes on
behind the string. Lengths are counted as the bytes after the first, for no
token is empty.
-/

namespace Ridership.Json

open Ridership.Text (Utf8.decode)

/-- A token. -/
inductive Token where
  | openObject
  | closeObject
  | openArray
  | closeArray
  | comma
  | colon
  | string (text : String)
  | number (literal : String)
  | bool (b : Bool)
  | null
  /-- The end of a text that is ending. -/
  | endOfText
  deriving DecidableEq, Repr

/-- What the bytes at hand begin with. -/
inductive Lexeme where
  /-- Too few bytes to tell. -/
  | unfinished
  /-- A token; `more` bytes follow its first one. -/
  | token (t : Token) (more : Nat)
  /-- A fault in the bytes from `first` up to `last`; reading goes on behind
  `more` bytes after the first. -/
  | fault (fault : Fault) (first last more : Nat)
  deriving DecidableEq, Repr

/-! ## Words -/

/-- Whether a byte is an ASCII letter. -/
def isLetter (b : UInt8) : Bool :=
  (0x41 ≤ b && b ≤ 0x5A) || (0x61 ≤ b && b ≤ 0x7A)

/-- Reads the one word that the first byte allows. Other letters are taken
together as one fault, so they wait for the first byte that is none. -/
def Token.readWord (ending : Bool) (word : String) (t : Token)
    (bytes : List UInt8) : Lexeme :=
  let wanted := Text.Utf8.encode word
  let found := bytes.take wanted.length
  if found.length < wanted.length then .unfinished
  else if found = wanted then .token t (wanted.length - 1)
  else
    let letters := (bytes.takeWhile isLetter).length
    if !ending && (bytes.drop letters).isEmpty then .unfinished
    else .fault (.wordExpected word) 0 (max 1 letters) (letters - 1)

/-! ## Numbers -/

/-- Whether a byte is a decimal digit. -/
def isDigit (b : UInt8) : Bool :=
  0x30 ≤ b && b ≤ 0x39

/-- How the number at the front of some bytes goes. -/
inductive NumberSpan where
  | unfinished
  /-- It takes up this many bytes. -/
  | complete (length : Nat)
  /-- The byte at `index` must not be there. -/
  | fault (fault : Fault) (index : Nat)
  deriving DecidableEq, Repr

/-- A number that has read all it needs, at `index`: it ends with its digits,
if their end is known. -/
def NumberSpan.lastDigits (ending : Bool) (index : Nat) (bytes : List UInt8) :
    NumberSpan :=
  if !ending && (bytes.dropWhile isDigit).isEmpty then .unfinished
  else .complete (index + (bytes.takeWhile isDigit).length)

/-- A number at the place where an exponent may come. -/
def NumberSpan.exponent (ending : Bool) (index : Nat) : List UInt8 → NumberSpan
  | [] => if ending then .complete index else .unfinished
  | mark :: rest =>
      if mark = 0x65 ∨ mark = 0x45 then
        match rest with
        | [] => .unfinished
        | sign :: rest =>
            if sign = 0x2B ∨ sign = 0x2D then
              match rest with
              | [] => .unfinished
              | digit :: rest =>
                  if isDigit digit then lastDigits ending (index + 3) rest
                  else .fault (.exponentDigit digit) (index + 2)
            else if isDigit sign then lastDigits ending (index + 2) rest
            else .fault (.exponentStart sign) (index + 1)
      else .complete index

/-- A number at the place where a point may come. -/
def NumberSpan.fraction (ending : Bool) (index : Nat) : List UInt8 → NumberSpan
  | [] => if ending then .complete index else .unfinished
  | point :: rest =>
      if point = 0x2E then
        match rest with
        | [] => .unfinished
        | digit :: rest =>
            if isDigit digit then
              exponent ending (index + 2 + (rest.takeWhile isDigit).length)
                (rest.dropWhile isDigit)
            else .fault (.fractionStart digit) (index + 1)
      else exponent ending index (point :: rest)

/-- A number at the place of its first digit. A zero stands alone
before the point. -/
def NumberSpan.integer (ending : Bool) (index : Nat) : List UInt8 → NumberSpan
  | [] => .unfinished
  | digit :: rest =>
      if digit = 0x30 then fraction ending (index + 1) rest
      else if isDigit digit then
        fraction ending (index + 1 + (rest.takeWhile isDigit).length)
          (rest.dropWhile isDigit)
      else .fault (.numberStart digit) index

/-- The number at the front of some bytes, its sign included. -/
def NumberSpan.of (ending : Bool) (bytes : List UInt8) : NumberSpan :=
  match bytes with
  | 0x2D :: rest => integer ending 1 rest
  | bytes => integer ending 0 bytes

/-- Bytes as the characters with their numbers. -/
def asciiText (bytes : List UInt8) : String :=
  String.ofList (bytes.map fun b => Char.ofNat b.toNat)

/-- Reads a number. A byte that must not be there belongs to the
faulty token. -/
def Token.readNumber (ending : Bool) (bytes : List UInt8) : Lexeme :=
  match NumberSpan.of ending bytes with
  | .unfinished => .unfinished
  | .complete length =>
      .token (.number (asciiText (bytes.take length))) (length - 1)
  | .fault fault index => .fault fault index (index + 1) index

/-! ## Strings -/

/-- A fault inside a token, with the bytes to blame counted from the
token's first. -/
structure Mark where
  fault : Fault
  first : Nat
  last : Nat
  deriving DecidableEq, Repr

/-- What has been read of a string. -/
structure StringState where
  /-- The characters so far, last first. -/
  chars : List Char
  /-- The bytes since the last escape, last first, not yet read as
  characters. -/
  run : List UInt8
  /-- The first fault met. -/
  mark : Option Mark
  deriving DecidableEq, Repr

/-- Nothing read yet. -/
def StringState.start : StringState := ⟨[], [], none⟩

/-- Keeps a fault unless there was one before. -/
def StringState.note (s : StringState) (fault : Fault) (first last : Nat) :
    StringState :=
  { s with mark := s.mark <|> some ⟨fault, first, last⟩ }

/-- Adds a character. -/
def StringState.push (s : StringState) (c : Char) : StringState :=
  { s with chars := c :: s.chars }

/-- Reads the bytes since the last escape as characters; `index` is the place
behind them. -/
def StringState.closeRun (s : StringState) (index : Nat) : StringState :=
  match Utf8.decode s.run.reverse with
  | .ok chars => { s with chars := chars.reverse ++ s.chars, run := [] }
  | .error fault =>
      let place := index - s.run.length + fault.index
      { s with run := [] }.note (.notUtf8 fault) place (place + 1)

/-- The character that an escape of one letter stands for. -/
def simpleEscape? (b : UInt8) : Option Char :=
  match Char.ofNat b.toNat with
  | '"' => some '"'
  | '\\' => some '\\'
  | '/' => some '/'
  | 'b' => some '\x08'
  | 'f' => some '\x0c'
  | 'n' => some '\n'
  | 'r' => some '\r'
  | 't' => some '\t'
  | _ => none

/-- The value of a hexadecimal digit. -/
def hexValue? (b : UInt8) : Option Nat :=
  let n := b.toNat
  if isDigit b then some (n - 0x30)
  else if 0x61 ≤ n ∧ n ≤ 0x66 then some (n - 0x57)
  else if 0x41 ≤ n ∧ n ≤ 0x46 then some (n - 0x37)
  else none

/-- The number that hexadecimal digits spell, or the first byte that is none. -/
def codeUnit (n : Nat) : List UInt8 → Except UInt8 Nat
  | [] => .ok n
  | b :: rest =>
      match hexValue? b with
      | some digit => codeUnit (n * 16 + digit) rest
      | none => .error b

/-- Whether a code unit is half of a surrogate pair. -/
def isSurrogate (unit : Nat) : Bool :=
  0xD800 ≤ unit && unit ≤ 0xDFFF

/-- Takes a surrogate and the six bytes behind it as one character. Everything
that can be wrong with the pair is looked for in a fixed order; `index` is the
place of the first backslash. -/
def StringState.pushPair (s : StringState) (index high : Nat) (slash u : UInt8)
    (digits : List UInt8) : StringState :=
  let s :=
    if high < 0xDC00 then s
    else s.note (.notHighSurrogate high) index (index + 6)
  let s :=
    if slash = 0x5C ∧ u = 0x75 then s
    else s.note (.loneHighSurrogate high) (index + 6) (index + 12)
  let (s, low) := match codeUnit 0 digits with
    | .ok low => (s, low)
    | .error b => (s.note (.escapeDigit b) (index + 6) (index + 12), 0xFFFD)
  let s :=
    if 0xDC00 ≤ low ∧ low ≤ 0xDFFF then s
    else s.note (.notLowSurrogate low) (index + 6) (index + 12)
  s.push (Char.ofNat (0x10000 + high % 0x400 * 0x400 + low % 0x400))

/-- Reads a string from the place `index` inside it. -/
def StringState.read (s : StringState) (index : Nat) : List UInt8 → Lexeme
  | [] => .unfinished
  | b :: rest =>
      if b = 0x22 then
        let s := s.closeRun index
        match s.mark with
        | some mark => .fault mark.fault mark.first mark.last index
        | none => .token (.string (String.ofList s.chars.reverse)) index
      else if b = 0x5C then
        let s := s.closeRun index
        match rest with
        | [] => .unfinished
        | letter :: rest =>
            if letter = 0x75 then
              match rest with
              | d₁ :: d₂ :: d₃ :: d₄ :: rest =>
                  match codeUnit 0 [d₁, d₂, d₃, d₄] with
                  | .error bad =>
                      (s.note (.escapeDigit bad) (index + 2) (index + 6)).read
                        (index + 6) rest
                  | .ok unit =>
                      if isSurrogate unit then
                        match rest with
                        | slash :: u :: e₁ :: e₂ :: e₃ :: e₄ :: rest =>
                            (s.pushPair index unit slash u
                              [e₁, e₂, e₃, e₄]).read (index + 12) rest
                        | _ => .unfinished
                      else (s.push (Char.ofNat unit)).read (index + 6) rest
              | _ => .unfinished
            else
              match simpleEscape? letter with
              | some c => (s.push c).read (index + 2) rest
              | none =>
                  (s.note (.unknownEscape letter) index (index + 2)).read
                    (index + 2) rest
      else
        let s :=
          if b < 0x20 then s.note (.controlInString b) index (index + 1) else s
        { s with run := b :: s.run }.read (index + 1) rest

/-- A string without a quote that could end it goes on. -/
theorem StringState.read_of_not_mem (s : StringState) (index : Nat)
    (bytes : List UInt8) (h : 0x22 ∉ bytes) :
    s.read index bytes = .unfinished := by
  fun_induction StringState.read s index bytes <;> simp_all

/-- Reads a string behind its opening quote. Where nothing could end it, that
is all there is to know, and a long string that arrives in small parts is not
read anew with each of them. -/
def Token.readString (bytes : List UInt8) : Lexeme :=
  if bytes.contains 0x22 then StringState.start.read 1 bytes else .unfinished

theorem Token.readString_eq (bytes : List UInt8) :
    readString bytes = StringState.start.read 1 bytes := by
  unfold readString
  split
  · rfl
  · next h => exact (StringState.read_of_not_mem _ _ _ (by simpa using h)).symm

/-! ## All tokens -/

/-- What the bytes `b :: rest` begin with. A carriage return at the end of what
has arrived waits for the byte behind it. -/
def Token.read (ending : Bool) (b : UInt8) (rest : List UInt8) : Lexeme :=
  match Char.ofNat b.toNat with
  | '\x7b' => .token .openObject 0
  | '\x7d' => .token .closeObject 0
  | '[' => .token .openArray 0
  | ']' => .token .closeArray 0
  | ',' => .token .comma 0
  | ':' => .token .colon 0
  | '"' => readString rest
  | 't' => readWord ending "true" (.bool true) (b :: rest)
  | 'f' => readWord ending "false" (.bool false) (b :: rest)
  | 'n' => readWord ending "null" .null (b :: rest)
  | '\r' => .unfinished
  | c =>
      if c = '-' ∨ isDigit b then readNumber ending (b :: rest)
      else .fault (.strayByte b) 0 1 0

/-- Skips the blanks at the front of the bytes at hand, counting lines. A
carriage return and the line feed behind it are one line end (`returned` tells
that a return was just passed), so a carriage return with nothing behind it
stays until the text is ending. -/
def skipBlanks (ending returned : Bool) (p : Position) :
    List UInt8 → Position × List UInt8
  | [] => (p, [])
  | b :: rest =>
      if b = 0x20 ∨ b = 0x09 then skipBlanks ending false (p.advance 1) rest
      else if b = 0x0A then
        skipBlanks ending false
          (if returned then p.stretchLine else p.newLine) rest
      else if b = 0x0D then
        if !ending && rest.isEmpty then (p, [b])
        else skipBlanks ending true p.newLine rest
      else (p, b :: rest)

theorem skipBlanks_length (ending returned : Bool) (p : Position)
    (bytes : List UInt8) :
    (skipBlanks ending returned p bytes).2.length ≤ bytes.length := by
  fun_induction skipBlanks ending returned p bytes <;> simp_all <;> omega

end Ridership.Json

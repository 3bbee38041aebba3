/-!
# Bytes as characters

A byte string is cut into the characters it spells and the stretches that
spell none. The cutting is a machine that takes one byte at a time, so a
byte string can be read in any number of parts; all it keeps between two
bytes is what the character under way still owes.

A stretch that spells nothing is as long as it could have been the beginning
of a character: the byte that breaks it is looked at again as a first byte.
So one bad byte never hides a good character behind it, and the same cutting
serves the strict reading (`decode`, which names the first bad stretch) and
the forgiving one (`lossy`, which puts one replacement character in place of
each).
-/

namespace Ridership.Text.Utf8

/-- A stretch of a byte string. -/
inductive Piece where
  /-- The bytes of one character. -/
  | char (c : Char)
  /-- Bytes that begin like a character and are then broken by a byte that
  cannot go on. -/
  | invalid (length : Nat)
  /-- The beginning of a character that the end of the bytes cuts off. -/
  | incomplete (length : Nat)
  deriving DecidableEq, Repr

/-- The character a piece stands for when text has to be had at any price. -/
def Piece.toChar : Piece → Char
  | .char c => c
  | .invalid _ => '\uFFFD'
  | .incomplete _ => '\uFFFD'

/-- Where the machine stands between two bytes. -/
inductive State where
  /-- Between characters. -/
  | between
  /-- Inside a character: its code so far, the bytes seen, the bytes owed, and
  the least and greatest byte that may come next. -/
  | inside (code seen owed : Nat) (low high : UInt8)
  deriving DecidableEq, Repr

/-- Takes the first byte of a character. The second byte's bounds shut out the
long spellings of small codes, the surrogates, and the codes above `10FFFF`. -/
def opening (b : UInt8) : State × List Piece :=
  let n := b.toNat
  if n < 0x80 then (.between, [.char (Char.ofNat n)])
  else if 0xC2 ≤ n ∧ n ≤ 0xDF then (.inside (n - 0xC0) 1 1 0x80 0xBF, [])
  else if n = 0xE0 then (.inside 0 1 2 0xA0 0xBF, [])
  else if n = 0xED then (.inside 0xD 1 2 0x80 0x9F, [])
  else if 0xE1 ≤ n ∧ n ≤ 0xEF then (.inside (n - 0xE0) 1 2 0x80 0xBF, [])
  else if n = 0xF0 then (.inside 0 1 3 0x90 0xBF, [])
  else if n = 0xF4 then (.inside 4 1 3 0x80 0x8F, [])
  else if 0xF1 ≤ n ∧ n ≤ 0xF3 then (.inside (n - 0xF0) 1 3 0x80 0xBF, [])
  else (.between, [.invalid 1])

/-- Takes one byte and tells which pieces it ends. -/
def State.next (s : State) (b : UInt8) : State × List Piece :=
  match s with
  | .between => opening b
  | .inside code seen owed low high =>
      if low ≤ b ∧ b ≤ high then
        let code := code * 64 + (b.toNat - 0x80)
        if owed ≤ 1 then (.between, [.char (Char.ofNat code)])
        else (.inside code (seen + 1) (owed - 1) 0x80 0xBF, [])
      else
        let (after, ended) := opening b
        (after, .invalid seen :: ended)

/-- The piece that the end of the bytes leaves behind. -/
def State.close : State → List Piece
  | .between => []
  | .inside _ seen _ _ _ => [.incomplete seen]

/-- The machine run over bytes; the pieces are gathered last first. -/
def run (s : State) (gathered : List Piece) : List UInt8 → State × List Piece
  | [] => (s, gathered)
  | b :: rest =>
      let (after, ended) := s.next b
      run after (ended.reverse ++ gathered) rest

/-- The pieces of a byte string, in order. -/
def pieces (bytes : List UInt8) : List Piece :=
  let (s, gathered) := run .between [] bytes
  (s.close ++ gathered).reverse

/-- The first stretch that spells no character. -/
structure Fault where
  /-- The index of its first byte. -/
  index : Nat
  /-- Its length, unless it is the end of the bytes that cuts a
  character off. -/
  length : Option Nat
  deriving DecidableEq, Repr

/-- The first fault among pieces that begin at byte `index`. -/
def firstFault (index : Nat) : List Piece → Option Fault
  | [] => none
  | .char c :: rest => firstFault (index + c.utf8Size) rest
  | .invalid length :: _ => some ⟨index, some length⟩
  | .incomplete _ :: _ => some ⟨index, none⟩

/-- The characters of a byte string, or the first fault in it. -/
def decode (bytes : List UInt8) : Except Fault (List Char) :=
  let found := pieces bytes
  match firstFault 0 found with
  | some fault => .error fault
  | none => .ok (found.map Piece.toChar)

/-- The text of a byte string, with a replacement character for every stretch
that spells none. -/
def lossy (bytes : List UInt8) : String :=
  String.ofList ((pieces bytes).map Piece.toChar)

/-- The bytes of a text. -/
def encode (text : String) : List UInt8 :=
  text.toList.flatMap String.utf8EncodeChar

/-- What is wrong, in words. -/
def Fault.message (fault : Fault) : String :=
  match fault.length with
  | some length =>
      s!"invalid utf-8 sequence of {length} bytes from index {fault.index}"
  | none => s!"incomplete utf-8 byte sequence from index {fault.index}"

end Ridership.Text.Utf8

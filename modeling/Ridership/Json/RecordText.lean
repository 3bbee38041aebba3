import Ridership.Json.Number
import Ridership.Json.Token

/-!
# Records straight from a complete text

Small records come as complete texts: the body of a request, the descriptor
of a line. They are read in the order of the text, and the first thing wrong
is told, so it matters at once whether a text is no JSON (`malformed`) or
JSON of the wrong kind (`mismatch`): what comes behind is never looked at.

A record is an object of its fields, in any order and each at most once, or
an array of its fields in their order. Fields of other names are skipped; of
what is skipped only the form is checked, not what its strings spell.
-/

namespace Ridership.Json

/-- Why a text does not read as a record. -/
inductive TextFault where
  /-- It is no JSON. -/
  | malformed
  /-- It is JSON of the wrong kind. -/
  | mismatch
  deriving DecidableEq, Repr

/-- Reads something from the front of a text and gives the rest. -/
abbrev TextReader (α : Type) := List UInt8 → Except TextFault (α × List UInt8)

/-- The text behind the blanks at its front. -/
def behindBlanks (bytes : List UInt8) : List UInt8 :=
  bytes.dropWhile fun b => b = 0x20 || b = 0x09 || b = 0x0A || b = 0x0D

/-- Expects certain bytes. -/
def expectBytes : List UInt8 → TextReader Unit
  | [], rest => .ok ((), rest)
  | w :: wanted, b :: rest =>
      if b = w then expectBytes wanted rest else .error .malformed
  | _ :: _, [] => .error .malformed

/-- Expects a word. -/
def expectWord (word : String) : TextReader Unit :=
  expectBytes (Text.Utf8.encode word)

/-- The bytes of a character, last first. -/
def encodedBehind (c : Char) : List UInt8 :=
  (Text.Utf8.encode (String.singleton c)).reverse

/-- Reads a string behind its opening quote. Every escape must stand for a
character, and all bytes together must spell characters. The bytes so far are
given last first. -/
def readQuoted (before : List UInt8) : TextReader String
  | [] => .error .malformed
  | b :: rest =>
      if b = 0x22 then
        match Text.Utf8.decode before.reverse with
        | .ok chars => .ok (String.ofList chars, rest)
        | .error _ => .error .malformed
      else if b = 0x5C then
        match rest with
        | [] => .error .malformed
        | letter :: rest =>
            if letter = 0x75 then
              match rest with
              | d₁ :: d₂ :: d₃ :: d₄ :: rest =>
                  match codeUnit 0 [d₁, d₂, d₃, d₄] with
                  | .error _ => .error .malformed
                  | .ok unit =>
                      if isSurrogate unit then
                        match rest with
                        | 0x5C :: 0x75 :: e₁ :: e₂ :: e₃ :: e₄ :: rest =>
                            match codeUnit 0 [e₁, e₂, e₃, e₄] with
                            | .error _ => .error .malformed
                            | .ok low =>
                                if unit < 0xDC00 ∧ 0xDC00 ≤ low
                                    ∧ low ≤ 0xDFFF then
                                  let c := Char.ofNat (0x10000
                                    + unit % 0x400 * 0x400 + low % 0x400)
                                  readQuoted (encodedBehind c ++ before) rest
                                else .error .malformed
                        | _ => .error .malformed
                      else
                        readQuoted (encodedBehind (Char.ofNat unit) ++ before)
                          rest
              | _ => .error .malformed
            else
              match simpleEscape? letter with
              | some c => readQuoted (encodedBehind c ++ before) rest
              | none => .error .malformed
      else if b < 0x20 then .error .malformed
      else readQuoted (b :: before) rest

/-- Skips a string behind its opening quote. -/
def skipQuoted : TextReader Unit
  | [] => .error .malformed
  | b :: rest =>
      if b = 0x22 then .ok ((), rest)
      else if b = 0x5C then
        match rest with
        | [] => .error .malformed
        | letter :: rest =>
            if letter = 0x75 then
              match rest with
              | d₁ :: d₂ :: d₃ :: d₄ :: rest =>
                  match codeUnit 0 [d₁, d₂, d₃, d₄] with
                  | .ok _ => skipQuoted rest
                  | .error _ => .error .malformed
              | _ => .error .malformed
            else if (simpleEscape? letter).isSome then skipQuoted rest
            else .error .malformed
      else if b < 0x20 then .error .malformed
      else skipQuoted rest

/-- Skips a number and gives its literal. A zero has no digit behind it. -/
def readLiteral : TextReader String := fun bytes =>
  match NumberSpan.of true bytes with
  | .complete length =>
      let literal := bytes.take length
      let rest := bytes.drop length
      let zeroFirst := literal = [0x30] ∨ literal = [0x2D, 0x30]
      if zeroFirst ∧ rest.head?.any isDigit then .error .malformed
      else .ok (asciiText literal, rest)
  | _ => .error .malformed

/-- Skips a value that is neither an object nor an array. -/
def skipScalar : TextReader Unit
  | [] => .error .malformed
  | b :: rest =>
      if b = 0x22 then skipQuoted rest
      else if b = 0x74 then expectWord "rue" rest
      else if b = 0x66 then expectWord "alse" rest
      else if b = 0x6E then expectWord "ull" rest
      else (readLiteral (b :: rest)).map fun found => ((), found.2)

/-- A container that is being skipped. -/
inductive SkippedContainer where
  | object
  | array
  deriving DecidableEq, Repr

/-- Skips a key with its colon. -/
def skipKey (bytes : List UInt8) : Except TextFault (List UInt8) :=
  match behindBlanks bytes with
  | 0x22 :: rest =>
      match skipQuoted rest with
      | .ok ((), rest) =>
          match behindBlanks rest with
          | 0x3A :: rest => .ok rest
          | _ => .error .malformed
      | .error fault => .error fault
  | _ => .error .malformed

mutual

/-- Skips a value inside containers, given innermost first, and all that
follows up to their end. Every round takes up a byte at least. -/
def skipValue (containers : List SkippedContainer) (bytes : List UInt8) :
    Nat → Except TextFault (List UInt8)
  | 0 => .error .malformed
  | rounds + 1 =>
      match behindBlanks bytes with
      | 0x7B :: rest =>
          match behindBlanks rest with
          | 0x7D :: rest => skipBehindValue containers rest rounds
          | _ =>
              match skipKey rest with
              | .ok rest => skipValue (.object :: containers) rest rounds
              | .error fault => .error fault
      | 0x5B :: rest =>
          match behindBlanks rest with
          | 0x5D :: rest => skipBehindValue containers rest rounds
          | _ => skipValue (.array :: containers) rest rounds
      | bytes =>
          match skipScalar bytes with
          | .ok ((), rest) => skipBehindValue containers rest rounds
          | .error fault => .error fault

/-- Skips what follows a value inside containers, up to their end. -/
def skipBehindValue (containers : List SkippedContainer) (bytes : List UInt8) :
    Nat → Except TextFault (List UInt8)
  | 0 => .error .malformed
  | rounds + 1 =>
      match containers with
      | [] => .ok bytes
      | .object :: outer =>
          match behindBlanks bytes with
          | 0x2C :: rest =>
              match skipKey rest with
              | .ok rest => skipValue containers rest rounds
              | .error fault => .error fault
          | 0x7D :: rest => skipBehindValue outer rest rounds
          | _ => .error .malformed
      | .array :: outer =>
          match behindBlanks bytes with
          | 0x2C :: rest => skipValue containers rest rounds
          | 0x5D :: rest => skipBehindValue outer rest rounds
          | _ => .error .malformed

end

/-- Rounds enough to skip any value of a text: each of its bytes may begin a
value and be behind one. -/
def enoughRounds (text : List UInt8) : Nat :=
  2 * text.length + 2

/-! ## Fields -/

/-- What a field of a record holds. -/
inductive FieldKind where
  | text
  /-- A whole number of 64 bits without a sign. -/
  | natural
  /-- A whole number of 64 bits with a sign, or null. -/
  | integerOrNull
  deriving DecidableEq, Repr

/-- A field of a record. -/
structure Field where
  name : String
  kind : FieldKind
  /-- Whether it may be missing. -/
  optional : Bool
  deriving DecidableEq, Repr

/-- Whether a number fits a field. -/
def FieldKind.admits : FieldKind → Int → Bool
  | .text, _ => false
  | .natural, n => fitsUnsigned 64 n
  | .integerOrNull, n => fitsSigned 64 n

/-- The fault of a value of the wrong kind, unless its text is wrong already.
An object or an array is told by its first byte. -/
def refuseValue (bytes : List UInt8) : TextFault :=
  match bytes with
  | 0x7B :: _ => .mismatch
  | 0x5B :: _ => .mismatch
  | 0x22 :: rest =>
      match readQuoted [] rest with
      | .ok _ => .mismatch
      | .error fault => fault
  | bytes =>
      match skipScalar bytes with
      | .error fault => fault
      | .ok _ =>
          match readLiteral bytes with
          | .ok (literal, _) =>
              if (Number.ofLiteral? literal).isSome then .mismatch
              else .malformed
          | .error _ => .mismatch

/-- Reads the value of a field. -/
def FieldKind.read (kind : FieldKind) : TextReader Value := fun bytes =>
  let bytes := behindBlanks bytes
  match bytes with
  | 0x22 :: rest =>
      if kind = .text then
        (readQuoted [] rest).map fun found => (.string found.1, found.2)
      else .error (refuseValue bytes)
  | 0x6E :: rest =>
      match expectWord "ull" rest with
      | .ok ((), rest) =>
          if kind = .integerOrNull then .ok (.null, rest)
          else .error .mismatch
      | .error fault => .error fault
  | _ =>
      match readLiteral bytes with
      | .ok (literal, rest) =>
          match Number.ofLiteral? literal with
          | some (.whole n) =>
              if kind.admits n then .ok (.number (.whole n), rest)
              else .error .mismatch
          | some (.float _) => .error .mismatch
          | none => .error .malformed
      | .error _ => .error (refuseValue bytes)

/-- The field of a name. -/
def fieldNamed? (fields : List Field) (name : String) : Option Field :=
  fields.find? fun field => field.name = name

/-- Reads the members of an object, from the quote or the bracket that comes
next; `found` are those before, and every round takes up a byte at least. For a
value to be skipped there are `skipRounds`. -/
def readMembers (fields : List Field) (skipRounds : Nat)
    (found : List (String × Value)) (bytes : List UInt8) :
    Nat → Except TextFault (List (String × Value) × List UInt8)
  | 0 => .error .malformed
  | rounds + 1 => do
      match behindBlanks bytes with
      | 0x22 :: rest =>
          let (name, rest) ← readQuoted [] rest
          let field := fieldNamed? fields name
          if field.isSome && (member? name found).isSome then throw .mismatch
          match behindBlanks rest with
          | 0x3A :: rest =>
              let (found, rest) ← match field with
                | some field => do
                    let (v, rest) ← field.kind.read rest
                    pure (found ++ [(name, v)], rest)
                | none => do
                    let rest ← skipValue [] rest skipRounds
                    pure (found, rest)
              match behindBlanks rest with
              | 0x7D :: rest => return (found, rest)
              | 0x2C :: rest => readMembers fields skipRounds found rest rounds
              | _ => throw .malformed
          | _ => throw .malformed
      | _ => throw .malformed

/-- Reads the items of an array as the fields of a record in their order;
`begun` tells that there was an item before. -/
def readItems (begun : Bool) (found : List (String × Value)) :
    List Field → TextReader (List (String × Value))
  | [], bytes =>
      match behindBlanks bytes with
      | 0x5D :: rest => .ok (found, rest)
      | _ => .error .malformed
  | field :: fields, bytes =>
      match behindBlanks bytes with
      | 0x5D :: rest =>
          if field.optional then readItems begun found fields (0x5D :: rest)
          else .error .mismatch
      | next => do
          let next ← if begun then
              match next with
              | 0x2C :: rest => pure (behindBlanks rest)
              | _ => throw .malformed
            else pure next
          match next with
          | 0x5D :: _ => throw .malformed
          | next =>
              let (v, rest) ← field.kind.read next
              readItems true (found ++ [(field.name, v)]) fields rest

/-- Reads a record from the front of a text: the members that were there, every
required one among them. -/
def readRecord (fields : List Field) :
    TextReader (List (String × Value)) := fun bytes => do
  match behindBlanks bytes with
  | 0x7B :: rest =>
      let (found, rest) ← match behindBlanks rest with
        | 0x7D :: rest => pure ([], rest)
        | _ => readMembers fields (enoughRounds rest) [] rest (rest.length + 1)
      if fields.all fun field =>
          field.optional || (member? field.name found).isSome then
        return (found, rest)
      else throw .mismatch
  | 0x5B :: rest => readItems false [] fields rest
  | bytes => throw (refuseValue bytes)

end Ridership.Json

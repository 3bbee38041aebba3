/-!
# Socket addresses

A socket address is `a.b.c.d:port` or `[groups]:port`, where the groups may
be followed by a scope. It is read from left to right without looking back
beyond one part, and written in one way only: small letters, the longest run
of zero groups left out, and a mapped address of the older kind kept in its
dotted form.
-/

namespace Ridership.Server

/-- A socket address. -/
inductive SocketAddress where
  | v4 (octets : List Nat) (port : Nat)
  | v6 (groups : List Nat) (scope port : Nat)
  deriving DecidableEq, Repr

/-! ## Reading -/

/-- Reads something from the front of a text and gives the rest. -/
abbrev AddressReader (α : Type) := List Char → Option (α × List Char)

/-- The value of a digit in a base of at most sixteen. -/
def digitIn? (base : Nat) (c : Char) : Option Nat :=
  let value :=
    if c.isDigit then some (c.toNat - '0'.toNat)
    else if 'a' ≤ c ∧ c ≤ 'f' then some (c.toNat - 'a'.toNat + 10)
    else if 'A' ≤ c ∧ c ≤ 'F' then some (c.toNat - 'A'.toNat + 10)
    else none
  value.filter (· < base)

/-- The digits at the front of a text. -/
def digitsIn (base : Nat) (text : List Char) : List Nat :=
  (text.takeWhile fun c => (digitIn? base c).isSome).filterMap (digitIn? base)

/-- How a number must be written. -/
structure NumberForm where
  base : Nat
  /-- The most digits it may have, if there is a most. -/
  maxDigits : Option Nat
  /-- Whether zeros may stand in front. -/
  zerosInFront : Bool
  /-- The greatest value. -/
  maxValue : Nat

/-- Reads a number. All the digits that are there belong to it. -/
def NumberForm.read (form : NumberForm) : AddressReader Nat := fun text =>
  let digits := digitsIn form.base text
  let value := digits.foldl (fun n d => n * form.base + d) 0
  if digits.isEmpty then none
  else if form.maxDigits.any (· < digits.length) then none
  else if !form.zerosInFront && digits.head? = some 0
      && decide (1 < digits.length) then none
  else if form.maxValue < value then none
  else some (value, text.drop digits.length)

def octetForm : NumberForm := ⟨10, some 3, false, 255⟩
def groupForm : NumberForm := ⟨16, some 4, true, 0xFFFF⟩
def portForm : NumberForm := ⟨10, none, true, 0xFFFF⟩
def scopeForm : NumberForm := ⟨10, none, true, 0xFFFFFFFF⟩

/-- Expects a character. -/
def expectChar (c : Char) : List Char → Option (List Char)
  | d :: rest => if d = c then some rest else none
  | [] => none

/-- Reads four octets with points between them. -/
def readOctets : AddressReader (List Nat) := fun text => do
  let (a, text) ← octetForm.read text
  let (b, text) ← octetForm.read (← expectChar '.' text)
  let (c, text) ← octetForm.read (← expectChar '.' text)
  let (d, text) ← octetForm.read (← expectChar '.' text)
  return ([a, b, c, d], text)

/-- Reads what follows a colon, or what is there at once if nothing came
before. -/
def behindColon {α : Type} (first : Bool) (read : AddressReader α) :
    AddressReader α := fun text =>
  if first then read text else (expectChar ':' text).bind read

/-- Reads up to `room` groups with colons between them; tells whether the last
two were given as octets, which takes room for two. -/
def readGroups (first : Bool) : Nat → List Char → List Nat × Bool × List Char
  | 0, text => ([], false, text)
  | room + 1, text =>
      let dotted := if 0 < room then behindColon first readOctets text else none
      match dotted with
      | some ([a, b, c, d], rest) => ([a * 256 + b, c * 256 + d], true, rest)
      | _ =>
          match behindColon first groupForm.read text with
          | none => ([], false, text)
          | some (group, rest) =>
              let (groups, dotted, rest) := readGroups false room rest
              (group :: groups, dotted, rest)

/-- Reads eight groups, of which one run of zeros may be left out between two
colons. -/
def readEightGroups : AddressReader (List Nat) := fun text => do
  let (front, dotted, text) := readGroups true 8 text
  if front.length = 8 then return (front, text)
  if dotted then none
  let text ← expectChar ':' (← expectChar ':' text)
  let (back, _, text) := readGroups true (7 - front.length) text
  return (front ++ List.replicate (8 - front.length - back.length) 0 ++ back,
    text)

/-- Reads a scope, if there is one that reads. -/
def readScope (text : List Char) : Nat × List Char :=
  match (expectChar '%' text).bind scopeForm.read with
  | some found => found
  | none => (0, text)

/-- Reads a colon and a port that end the text. -/
def readPort (text : List Char) : Option Nat := do
  let (port, rest) ← portForm.read (← expectChar ':' text)
  if rest.isEmpty then some port else none

/-- Reads an address that makes up a whole text. -/
def SocketAddress.read? (text : List Char) : Option SocketAddress :=
  match text with
  | '[' :: inside => do
      let (groups, rest) ← readEightGroups inside
      let (scope, rest) := readScope rest
      let port ← readPort (← expectChar ']' rest)
      return .v6 groups scope port
  | text => do
      let (octets, rest) ← readOctets text
      return .v4 octets (← readPort rest)

/-! ## Writing -/

/-- Octets with points between them. -/
def dottedText (octets : List Nat) : String :=
  String.intercalate "." (octets.map toString)

/-- Groups with colons between them. -/
def groupsText (groups : List Nat) : String :=
  String.intercalate ":" (groups.map fun g => String.ofList (Nat.toDigits 16 g))

/-- A run of zero groups: how many groups stand before it, and how
many it has. -/
structure ZeroRun where
  before : Nat
  length : Nat
  deriving DecidableEq, Repr

/-- The first of the longest runs of zeros, from the group of an index on;
`current` is the run that ends just before it. -/
def longestZeros (index : Nat) (current longest : ZeroRun) : List Nat → ZeroRun
  | [] => longest
  | group :: rest =>
      if group = 0 then
        let current : ZeroRun :=
          if current.length = 0 then ⟨index, 1⟩
          else { current with length := current.length + 1 }
        longestZeros (index + 1) current
          (if longest.length < current.length then current else longest) rest
      else longestZeros (index + 1) ⟨0, 0⟩ longest rest

/-- The text of eight groups. -/
def sixText (groups : List Nat) : String :=
  match groups with
  | [0, 0, 0, 0, 0, 0xFFFF, high, low] =>
      "::ffff:" ++ dottedText [high / 256, high % 256, low / 256, low % 256]
  | groups =>
      let zeros := longestZeros 0 ⟨0, 0⟩ ⟨0, 0⟩ groups
      if 1 < zeros.length then
        groupsText (groups.take zeros.before) ++ "::"
          ++ groupsText (groups.drop (zeros.before + zeros.length))
      else groupsText groups

/-- The text of an address. The scope is left out when it is zero. -/
def SocketAddress.text : SocketAddress → String
  | .v4 octets port => s!"{dottedText octets}:{port}"
  | .v6 groups scope port =>
      if scope = 0 then s!"[{sixText groups}]:{port}"
      else s!"[{sixText groups}%{scope}]:{port}"

def SocketAddress.port : SocketAddress → Nat
  | .v4 _ port => port
  | .v6 _ _ port => port

def SocketAddress.isV6 : SocketAddress → Bool
  | .v4 _ _ => false
  | .v6 _ _ _ => true

end Ridership.Server

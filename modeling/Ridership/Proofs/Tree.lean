import Ridership.Json.RecordText
import Ridership.Json.Scanner
import Ridership.Json.Selection

/-!
# A JSON text as a tree

What a text says can be had without any scanner: its bytes are cut into tokens
from the first to the last, and the tokens are read by descent into a tree. A
tree keeps the members of an object in the order of the text, and keeps a key
as often as the text has it. This is the measure that reading a text part by
part is held against, so nothing here knows of parts, of depths that are
counted along, or of containers that are open.

From a tree everything else is had by recursion: its value, its events, and
its members with so many containers around their key.
-/

namespace Ridership.Json

/-- What a JSON text says. Numbers stay literals. -/
inductive Tree where
  | null
  | bool (b : Bool)
  | number (literal : String)
  | string (text : String)
  | array (items : List Tree)
  | object (members : List (String × Tree))

/-! ## Reading a whole text -/

theorem behindBlanks_length_le (bytes : List UInt8) :
    (behindBlanks bytes).length ≤ bytes.length :=
  (List.dropWhile_suffix _).length_le

/-- All tokens of a text, if it has nothing else but blanks. -/
def Token.readAll (bytes : List UInt8) : Option (List Token) :=
  match _hblanks : behindBlanks bytes with
  | [] => some []
  | b :: rest =>
      match Token.read true b rest with
      | .token t more => (readAll (rest.drop more)).map (t :: ·)
      | _ => none
termination_by bytes.length
decreasing_by
  have hle := behindBlanks_length_le bytes
  rw [_hblanks, List.length_cons] at hle
  rw [List.length_drop]
  omega

/-- What is read off the front of some tokens, and the tokens behind it. -/
abbrev Front (α : Type) (tokens : List Token) : Type :=
  Option (α × { rest : List Token // rest.length < tokens.length })

mutual

/-- Reads a value. -/
def Tree.read (tokens : List Token) : Front Tree tokens :=
  match tokens with
  | .null :: rest => some (.null, ⟨rest, Nat.lt_succ_self _⟩)
  | .bool b :: rest => some (.bool b, ⟨rest, Nat.lt_succ_self _⟩)
  | .number literal :: rest =>
      some (.number literal, ⟨rest, Nat.lt_succ_self _⟩)
  | .string text :: rest => some (.string text, ⟨rest, Nat.lt_succ_self _⟩)
  | .openArray :: .closeArray :: rest =>
      some (.array [], ⟨rest, Nat.lt_succ_of_lt (Nat.lt_succ_self _)⟩)
  | .openArray :: rest =>
      match Tree.readItems rest with
      | some (items, ⟨behind, h⟩) =>
          some (.array items, ⟨behind, Nat.lt_succ_of_lt h⟩)
      | none => none
  | .openObject :: .closeObject :: rest =>
      some (.object [], ⟨rest, Nat.lt_succ_of_lt (Nat.lt_succ_self _)⟩)
  | .openObject :: rest =>
      match Tree.readMembers rest with
      | some (members, ⟨behind, h⟩) =>
          some (.object members, ⟨behind, Nat.lt_succ_of_lt h⟩)
      | none => none
  | _ => none
termination_by (tokens.length, 0)

/-- Reads the items of an array that has some, and its end. -/
def Tree.readItems (tokens : List Token) : Front (List Tree) tokens :=
  match Tree.read tokens with
  | some (item, ⟨.comma :: rest, h⟩) =>
      match Tree.readItems rest with
      | some (items, ⟨behind, h'⟩) =>
          some (item :: items,
            ⟨behind, Nat.lt_trans h' (Nat.lt_of_succ_lt h)⟩)
      | none => none
  | some (item, ⟨.closeArray :: rest, h⟩) =>
      some ([item], ⟨rest, Nat.lt_of_succ_lt h⟩)
  | _ => none
termination_by (tokens.length, 1)
decreasing_by
  · exact Prod.Lex.right _ Nat.one_pos
  · exact Prod.Lex.left _ _ (Nat.lt_of_succ_lt h)

/-- Reads the members of an object that has some, and its end. -/
def Tree.readMembers (tokens : List Token) :
    Front (List (String × Tree)) tokens :=
  match tokens with
  | .string key :: .colon :: tokens =>
      match Tree.read tokens with
      | some (value, ⟨.comma :: rest, h⟩) =>
          match Tree.readMembers rest with
          | some (members, ⟨behind, h'⟩) =>
              some ((key, value) :: members,
                ⟨behind, Nat.lt_succ_of_lt (Nat.lt_succ_of_lt
                  (Nat.lt_trans h' (Nat.lt_of_succ_lt h)))⟩)
          | none => none
      | some (value, ⟨.closeObject :: rest, h⟩) =>
          some ([(key, value)],
            ⟨rest, Nat.lt_succ_of_lt (Nat.lt_succ_of_lt
              (Nat.lt_of_succ_lt h))⟩)
      | _ => none
  | _ => none
termination_by (tokens.length, 0)
decreasing_by
  · exact Prod.Lex.left _ _ (Nat.lt_succ_of_lt (Nat.lt_succ_self _))
  · exact Prod.Lex.left _ _ (Nat.lt_succ_of_lt (Nat.lt_succ_of_lt
      (Nat.lt_of_succ_lt h)))

end

/-- The front of a text that begins with a byte order mark is not read. -/
def behindMark (bytes : List UInt8) : List UInt8 :=
  if bytes.take 3 = byteOrderMark then bytes.drop 3 else bytes

/-- The tree of a whole text. -/
def Tree.ofText? (bytes : List UInt8) : Option Tree := do
  let tokens ← Token.readAll (behindMark bytes)
  match Tree.read tokens with
  | some (t, ⟨[], _⟩) => some t
  | _ => none

/-! ## What a tree says -/

mutual

/-- The value of a tree. A number out of range counts as null, and of a key
that an object has several times the last value counts, in the first place. -/
def Tree.toValue : Tree → Value
  | .null => .null
  | .bool b => .bool b
  | .number literal => ((Number.ofLiteral? literal).map .number).getD .null
  | .string text => .string text
  | .array items => .array (Tree.itemValues items)
  | .object members => .object (Tree.memberValues [] members)

def Tree.itemValues : List Tree → List Value
  | [] => []
  | item :: rest => item.toValue :: Tree.itemValues rest

def Tree.memberValues (before : List (String × Value)) :
    List (String × Tree) → List (String × Value)
  | [] => before
  | (key, value) :: rest =>
      Tree.memberValues (insert key value.toValue before) rest

end

mutual

/-- The events that tell a tree with `depth` containers around it. -/
def Tree.events (depth : Nat) : Tree → List (Event × Nat)
  | .null => [(.null, depth)]
  | .bool b => [(.bool b, depth)]
  | .number literal => [(.number literal, depth)]
  | .string text => [(.string text, depth)]
  | .array items =>
      (.startArray, depth + 1) :: Tree.itemEvents (depth + 1) items
        ++ [(.endArray, depth + 1)]
  | .object members =>
      (.startObject, depth + 1) :: Tree.memberEvents (depth + 1) members
        ++ [(.endObject, depth + 1)]

def Tree.itemEvents (depth : Nat) : List Tree → List (Event × Nat)
  | [] => []
  | item :: rest => item.events depth ++ Tree.itemEvents depth rest

def Tree.memberEvents (depth : Nat) :
    List (String × Tree) → List (Event × Nat)
  | [] => []
  | (key, value) :: rest =>
      (.key key, depth) :: value.events depth ++ Tree.memberEvents depth rest

end

/-- The members of a tree that have exactly so many containers around their
key, in the order of the text. -/
def Tree.membersAt : Nat → Tree → List (String × Tree)
  | 1, .object members => members
  | depth + 2, .object members =>
      members.flatMap fun member => member.2.membersAt (depth + 1)
  | depth + 2, .array items => items.flatMap (Tree.membersAt (depth + 1))
  | _, _ => []

/-- A member whose value is a container, as what a selector finds. -/
def Tree.toSelected? : String × Tree → Option Selected
  | (key, .object members) => some (.object key (memberValues [] members))
  | (key, .array items) => some (.array key (itemValues items))
  | _ => none

end Ridership.Json

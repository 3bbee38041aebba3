import Ridership.Json.Number
import Ridership.Json.Token

/-!
# From tokens to events

A text is told as a sequence of events: containers that open and close,
keys, and scalars. The grammar is a stack of frames, one for what each open
container expects next, and every token settles the topmost.

A token out of place is a fault, but the reading goes on: the fault is told
first, and the event that the token still stands for is due next. So after a
fault the events keep telling which containers are open. The stack has a
limit; a container beyond it is told as opened although the stack forgets
it.
-/

namespace Ridership.Json

/-- One step in the telling of a text. -/
inductive Event where
  | startObject
  | endObject
  | startArray
  | endArray
  | key (name : String)
  | string (text : String)
  | number (literal : String)
  | bool (b : Bool)
  | null
  deriving DecidableEq, Repr

/-- The value that a scalar event stands for. A number out of range has none
and counts as null. -/
def Event.scalar? : Event → Option Value
  | .string text => some (.string text)
  | .number literal =>
      some (((Number.ofLiteral? literal).map Value.number).getD .null)
  | .bool b => some (.bool b)
  | .null => some .null
  | _ => none

/-- What the innermost open containers expect. -/
inductive Frame where
  /-- A key or the end, after the opening of an object. -/
  | firstKey
  /-- A key, after a comma. -/
  | nextKey
  | colon
  | memberValue
  /-- A comma or the end, after a member. -/
  | memberEnd
  /-- A value or the end, after the opening of an array. -/
  | firstItem
  /-- A value, after a comma. -/
  | nextItem
  /-- A comma or the end, after an item. -/
  | itemEnd
  deriving DecidableEq, Repr

/-- How far the reading of a text has come. -/
structure Grammar where
  /-- The frames, innermost first. -/
  frames : List Frame
  /-- How many frames there are. -/
  height : Nat
  height_eq : height = frames.length
  /-- Whether the value that makes up the text has begun. -/
  rootSeen : Bool

/-- Nothing read yet. -/
def Grammar.start : Grammar := ⟨[], 0, rfl, false⟩

/-- The greatest height at which another container may open. -/
def Grammar.limit : Nat := 65536

def Grammar.push (g : Grammar) (f : Frame) : Grammar :=
  ⟨f :: g.frames, g.height + 1, by simp [g.height_eq], g.rootSeen⟩

def Grammar.pop (g : Grammar) : Grammar :=
  ⟨g.frames.tail, g.height - 1, by simp [g.height_eq], g.rootSeen⟩

/-- Puts another frame in the place of the innermost. -/
def Grammar.replace (g : Grammar) (f : Frame) : Grammar :=
  g.pop.push f

/-- Something to be told: an event, or that the text has ended. -/
inductive Signal where
  | event (e : Event)
  | ended
  deriving DecidableEq, Repr

/-- What a token leads to. -/
inductive Reaction where
  | signal (s : Signal)
  /-- The token only separates. -/
  | silent
  /-- The token is out of place; what it still stands for is due afterwards. -/
  | fault (fault : Fault) (due : Option Signal)
  deriving DecidableEq, Repr

/-- What is told by a reaction, be it at once or after its fault. -/
def Reaction.told : Reaction → Option Signal
  | .signal s => some s
  | .silent => none
  | .fault _ due => due

/-- The same reaction with something else to blame. -/
def Reaction.blaming (r : Reaction) (fault : Fault) : Reaction :=
  .fault fault r.told

/-- Opens a container whose inside expects `f`. -/
def Grammar.enter (g : Grammar) (f : Frame) (e : Event) : Grammar × Reaction :=
  if g.height ≤ limit then (g.push f, .signal (.event e))
  else (g, .fault (.tooDeep limit) (some (.event e)))

/-- Takes a token where a value has to come. -/
def Grammar.value (g : Grammar) : Token → Grammar × Reaction
  | .openObject => g.enter .firstKey .startObject
  | .openArray => g.enter .firstItem .startArray
  | .string text => (g, .signal (.event (.string text)))
  | .number literal => (g, .signal (.event (.number literal)))
  | .bool b => (g, .signal (.event (.bool b)))
  | .null => (g, .signal (.event .null))
  | .closeArray => (g, .fault .strayCloseArray none)
  | .closeObject => (g, .fault .strayCloseObject none)
  | .comma => (g, .fault .strayComma none)
  | .colon => (g, .fault .strayColon none)
  | .endOfText => (g, .fault .endForValue (some .ended))

/-- Takes a token where a key has to come. -/
def Grammar.key (g : Grammar) : Token → Grammar × Reaction
  | .string name => (g.replace .colon, .signal (.event (.key name)))
  | _ => (g.replace .colon, .fault .keyNotString none)

/-- Takes a token as the value of a member. -/
def Grammar.memberValue (g : Grammar) (t : Token) : Grammar × Reaction :=
  (g.replace .memberEnd).value t

/-- Takes a token as an item. -/
def Grammar.item (g : Grammar) (t : Token) : Grammar × Reaction :=
  (g.replace .itemEnd).value t

/-- Takes a token. -/
def Grammar.accept (g : Grammar) (t : Token) : Grammar × Reaction :=
  match g.frames with
  | [] =>
      if g.rootSeen then
        match t with
        | .endOfText => (g, .signal .ended)
        | _ => (g, .fault .secondRoot none)
      else { g with rootSeen := true }.value t
  | .firstKey :: _ =>
      match t with
      | .closeObject => (g.pop, .signal (.event .endObject))
      | t => g.key t
  | .nextKey :: _ =>
      match t with
      | .closeObject =>
          (g.pop, .fault .trailingComma (some (.event .endObject)))
      | t => g.key t
  | .colon :: _ =>
      match t with
      | .colon => (g.replace .memberValue, .silent)
      | t =>
          let (g, reaction) := g.memberValue t
          (g, reaction.blaming .keyNotString)
  | .memberValue :: _ => g.memberValue t
  | .memberEnd :: _ =>
      match t with
      | .comma => (g.replace .nextKey, .silent)
      | .closeObject => (g.pop, .signal (.event .endObject))
      | _ => (g.pop, .fault .memberNotSeparated none)
  | .firstItem :: _ =>
      match t with
      | .closeArray => (g.pop, .signal (.event .endArray))
      | t => g.item t
  | .nextItem :: _ =>
      match t with
      | .closeArray => (g.pop, .fault .trailingComma (some (.event .endArray)))
      | t => g.item t
  | .itemEnd :: _ =>
      match t with
      | .comma => (g.replace .nextItem, .silent)
      | .closeArray => (g.pop, .signal (.event .endArray))
      | t =>
          let (g, reaction) := g.item t
          (g, reaction.blaming .itemNotSeparated)

/-- The end of the text is never told as an event, nor passed over. -/
theorem Grammar.accept_endOfText (g : Grammar) :
    (g.accept .endOfText).2 = .signal .ended ∨
      ∃ fault due, (g.accept .endOfText).2 = .fault fault due := by
  unfold accept
  split <;> simp [key, memberValue, item, value, Reaction.blaming]
  split <;> simp

end Ridership.Json

import Ridership.Json.Event

/-!
# Picking sub-trees out of a text

A selector listens to the events of a text. When a key is wanted, by its
name and its depth, and an object or an array follows it at once, that
container is built as a value; everything else streams past and leaves
nothing behind. While a container is being built no other key is looked at,
so what is inside a selected sub-tree is part of it and is never selected
again.
-/

namespace Ridership.Json

/-- A sub-tree and the key it was found under. -/
inductive Selected where
  | object (key : String) (members : List (String × Value))
  | array (key : String) (items : List Value)

/-- A container under way. -/
inductive Partial where
  /-- An object, and the key whose value comes next. -/
  | object (members : List (String × Value)) (key : Option String)
  /-- An array, its items last first. -/
  | array (items : List Value)

/-- Adds the next value. In an object it belongs to the key that
came before it. -/
def Partial.add (value : Value) : Partial → Partial
  | .object members key => .object (insert (key.getD "") value members) none
  | .array items => .array (value :: items)

/-- Takes a key. -/
def Partial.name (key : String) : Partial → Partial
  | .object members _ => .object members (some key)
  | .array items => .array items

/-- The finished container. -/
def Partial.toValue : Partial → Value
  | .object members _ => .object members
  | .array items => .array items.reverse

/-- The finished container as what was found under `key`. -/
def Partial.toSelected (key : String) : Partial → Selected
  | .object members _ => .object key members
  | .array items => .array key items.reverse

/-- A selected sub-tree under way: the container being filled, and those around
it, innermost first. -/
structure Capture where
  key : String
  inner : Partial
  outer : List Partial

/-- Takes an event; gives the sub-tree when its own container closes. -/
def Capture.accept (c : Capture) : Event → Capture ⊕ Selected
  | .startObject =>
      .inl { c with inner := .object [] none, outer := c.inner :: c.outer }
  | .startArray =>
      .inl { c with inner := .array [], outer := c.inner :: c.outer }
  | .key name => .inl { c with inner := c.inner.name name }
  | .endObject | .endArray =>
      match c.outer with
      | [] => .inr (c.inner.toSelected c.key)
      | parent :: outer =>
          .inl { c with inner := parent.add c.inner.toValue, outer }
  | e =>
      match e.scalar? with
      | some value => .inl { c with inner := c.inner.add value }
      | none => .inl c

/-- What a selector is about. -/
inductive Selector where
  /-- Waiting for a wanted key; `armed` is one that was the last event. -/
  | watching (armed : Option String)
  | capturing (c : Capture)

/-- A selector before the first event. -/
def Selector.start : Selector := .watching none

/-- Whether a sub-tree is under way. -/
def Selector.isCapturing : Selector → Bool
  | .watching _ => false
  | .capturing _ => true

/-- Begins a sub-tree if a wanted key came just before. -/
def Selector.begin (armed : Option String) (inner : Partial) : Selector :=
  match armed with
  | some key => .capturing { key, inner, outer := [] }
  | none => .watching none

/-- Takes an event; gives a sub-tree when one is complete. -/
def Selector.accept (wanted : String → Nat → Bool) (s : Selector) (e : Event)
    (depth : Nat) : Selector × Option Selected :=
  match s with
  | .capturing c =>
      match c.accept e with
      | .inl c => (.capturing c, none)
      | .inr found => (.watching none, some found)
  | .watching armed =>
      match e with
      | .key name =>
          (.watching (if wanted name depth then some name else none), none)
      | .startObject => (begin armed (.object [] none), none)
      | .startArray => (begin armed (.array []), none)
      | _ => (.watching none, none)

end Ridership.Json

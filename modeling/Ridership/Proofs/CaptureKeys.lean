import Ridership.Proofs.TreeSelection

/-!
# Every value has its key

A container under way takes a value with the key that came before it, and
falls back on an empty key if none came. In the events of a tree that never
happens: a key comes before every member, and a container that was opened
for a member gives the object around it back as it was, its key still there.
So the induction over the tree has to ask of the object around nothing but
that it has a key when the value begins.
-/

namespace Ridership.Json

/-- Whether a container knows where the next value belongs. -/
def Partial.isKeyed : Partial → Bool
  | .object _ none => false
  | .object _ (some _) | .array _ => true

/-- The container under way that an event adds a value to, if there is one. -/
def Capture.receiver? (c : Capture) : Event → Option Partial
  | .endObject | .endArray => c.outer.head?
  | e => if e.scalar?.isSome then some c.inner else none

theorem Capture.accept_of_receiver {c : Capture} {e : Event} {p : Partial}
    (h : c.receiver? e = some p) :
    ∃ c' value, c.accept e = .inl c' ∧ c'.inner = p.add value := by
  obtain ⟨key, inner, outer⟩ := c
  cases e with
  | endObject | endArray =>
      obtain ⟨others, rfl⟩ := List.head?_eq_some_iff.mp h
      exact ⟨_, _, rfl, rfl⟩
  | startObject | startArray | key => cases h
  | string | number | bool | null =>
      cases h
      exact ⟨_, _, rfl, rfl⟩

/-- A value that comes with an event does not go under a key that never came. -/
def Selector.KeyedAt : Selector → Event → Prop
  | .watching _, _ => True
  | .capturing c, e => ∀ p, c.receiver? e = some p → p.isKeyed = true

/-- No value of these events goes under a key that never came. -/
def Selector.AllKeyed (wanted : String → Nat → Bool) (s : Selector) :
    List (Event × Nat) → Prop
  | [] => True
  | (e, depth) :: rest =>
      s.KeyedAt e ∧ (s.accept wanted e depth).1.AllKeyed wanted rest

section

variable {wanted : String → Nat → Bool}

theorem Selector.AllKeyed.at {s : Selector} {before after : List (Event × Nat)}
    {e : Event} {depth : Nat}
    (h : s.AllKeyed wanted (before ++ (e, depth) :: after)) :
    (s.run wanted before).1.KeyedAt e := by
  induction before generalizing s with
  | nil => exact h.1
  | cons first before ih => exact ih h.2

mutual

theorem Tree.allKeyed_capturing (t : Tree) (key : String) (inner : Partial)
    (outer : List Partial) (hkeyed : inner.isKeyed = true) (depth : Nat)
    (rest : List (Event × Nat))
    (h : (Selector.capturing ⟨key, inner.add t.toValue, outer⟩).AllKeyed wanted
      rest) :
    (Selector.capturing ⟨key, inner, outer⟩).AllKeyed wanted
      (t.events depth ++ rest) := by
  -- At a scalar, and at the end of a container, `inner` gets the value.
  have hinner (p : Partial) (hp : some inner = some p) : p.isKeyed = true :=
    Option.some.inj hp ▸ hkeyed
  match t with
  | .null | .bool _ | .number _ | .string _ => exact ⟨hinner, h⟩
  | .array items =>
      rw [Tree.events, List.cons_append, List.cons_append, List.append_assoc]
      refine ⟨by rintro _ ⟨⟩,
        Tree.allKeyed_capturing_items items key [] _ _ _ ?_⟩
      refine ⟨hinner, ?_⟩
      simpa [Selector.accept, Capture.accept, Partial.toValue, Tree.toValue]
        using h
  | .object members =>
      rw [Tree.events, List.cons_append, List.cons_append, List.append_assoc]
      exact ⟨by rintro _ ⟨⟩,
        Tree.allKeyed_capturing_members members key [] _ _ _ ⟨hinner, h⟩⟩

theorem Tree.allKeyed_capturing_items (items : List Tree) (key : String)
    (before : List Value) (outer : List Partial) (depth : Nat)
    (rest : List (Event × Nat))
    (h : (Selector.capturing ⟨key,
        .array ((Tree.itemValues items).reverse ++ before), outer⟩).AllKeyed
      wanted rest) :
    (Selector.capturing ⟨key, .array before, outer⟩).AllKeyed wanted
      (Tree.itemEvents depth items ++ rest) := by
  match items with
  | [] => exact h
  | item :: others =>
      rw [Tree.itemEvents, List.append_assoc]
      refine Tree.allKeyed_capturing item key _ outer rfl depth _ ?_
      refine Tree.allKeyed_capturing_items others key _ outer depth rest ?_
      simpa [Tree.itemValues] using h

theorem Tree.allKeyed_capturing_members (members : List (String × Tree))
    (key : String) (before : List (String × Value)) (outer : List Partial)
    (depth : Nat) (rest : List (Event × Nat))
    (h : (Selector.capturing ⟨key,
        .object (Tree.memberValues before members) none, outer⟩).AllKeyed
      wanted rest) :
    (Selector.capturing ⟨key, .object before none, outer⟩).AllKeyed wanted
      (Tree.memberEvents depth members ++ rest) := by
  match members with
  | [] => exact h
  | (name, value) :: others =>
      rw [Tree.memberEvents, List.cons_append, List.cons_append,
        List.append_assoc]
      refine ⟨by rintro _ ⟨⟩,
        Tree.allKeyed_capturing value key _ outer rfl depth _ ?_⟩
      exact Tree.allKeyed_capturing_members others key _ outer depth rest h

end

theorem Tree.allKeyed_armed (t : Tree) (key : String) (depth : Nat)
    (rest : List (Event × Nat))
    (h : (Selector.watching none).AllKeyed wanted rest) :
    (Selector.watching (some key)).AllKeyed wanted
      (t.events depth ++ rest) := by
  cases t with
  | null | bool | number | string => exact ⟨trivial, h⟩
  | array items =>
      rw [Tree.events, List.cons_append, List.cons_append, List.append_assoc]
      exact ⟨trivial, Tree.allKeyed_capturing_items items key [] [] _ _
        ⟨by rintro _ ⟨⟩, h⟩⟩
  | object members =>
      rw [Tree.events, List.cons_append, List.cons_append, List.append_assoc]
      exact ⟨trivial, Tree.allKeyed_capturing_members members key [] [] _ _
        ⟨by rintro _ ⟨⟩, h⟩⟩

mutual

theorem Tree.allKeyed_watching (t : Tree) (depth : Nat)
    (rest : List (Event × Nat))
    (h : (Selector.watching none).AllKeyed wanted rest) :
    (Selector.watching none).AllKeyed wanted (t.events depth ++ rest) := by
  match t with
  | .null | .bool _ | .number _ | .string _ => exact ⟨trivial, h⟩
  | .array items =>
      rw [Tree.events, List.cons_append, List.cons_append, List.append_assoc]
      exact ⟨trivial, Tree.allKeyed_watching_items items _ _ ⟨trivial, h⟩⟩
  | .object members =>
      rw [Tree.events, List.cons_append, List.cons_append, List.append_assoc]
      exact ⟨trivial, Tree.allKeyed_watching_members members _ _ ⟨trivial, h⟩⟩

theorem Tree.allKeyed_watching_items (items : List Tree) (depth : Nat)
    (rest : List (Event × Nat))
    (h : (Selector.watching none).AllKeyed wanted rest) :
    (Selector.watching none).AllKeyed wanted
      (Tree.itemEvents depth items ++ rest) := by
  match items with
  | [] => exact h
  | item :: others =>
      rw [Tree.itemEvents, List.append_assoc]
      exact Tree.allKeyed_watching item depth _
        (Tree.allKeyed_watching_items others depth rest h)

theorem Tree.allKeyed_watching_members (members : List (String × Tree))
    (depth : Nat) (rest : List (Event × Nat))
    (h : (Selector.watching none).AllKeyed wanted rest) :
    (Selector.watching none).AllKeyed wanted
      (Tree.memberEvents depth members ++ rest) := by
  match members with
  | [] => exact h
  | (key, value) :: others =>
      rw [Tree.memberEvents, List.cons_append, List.cons_append,
        List.append_assoc]
      have hothers := Tree.allKeyed_watching_members others depth rest h
      refine ⟨trivial, ?_⟩
      rw [Selector.accept]
      cases wanted key depth with
      | true => exact Tree.allKeyed_armed value key depth _ hothers
      | false => exact Tree.allKeyed_watching value depth _ hothers

end

end

end Ridership.Json

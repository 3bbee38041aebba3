import Ridership.Proofs.Tree

/-!
# What a selector picks is in the tree

A selector sees one event after another; a tree has all its members at once.
When the selector wants keys at one depth only, what it finds while a tree is
told are the members of the tree at that depth with a wanted key and a
container for a value, in the order of the text.

The converse side of that is silence. While a container is being filled nothing
else is found in it, and nothing in it is wanted either: its members have more
containers around them than the one that was picked. So it does not matter to
the tree whether the walk goes into what was picked, and `membersAt` does not
ask.
-/

namespace Ridership.Json

/-- Takes events one after another, and gives what was found on the way. -/
def Selector.run (wanted : String → Nat → Bool) (s : Selector) :
    List (Event × Nat) → Selector × List Selected
  | [] => (s, [])
  | (e, depth) :: rest =>
      let (s, found) := s.accept wanted e depth
      let (s, more) := s.run wanted rest
      (s, found.toList ++ more)

theorem Selector.run_cons {wanted : String → Nat → Bool} {s s' : Selector}
    {e : Event} {depth : Nat} {found : Option Selected}
    (h : s.accept wanted e depth = (s', found)) (rest : List (Event × Nat)) :
    s.run wanted ((e, depth) :: rest)
      = ((s'.run wanted rest).1, found.toList ++ (s'.run wanted rest).2) := by
  rw [run, h]

/-! ## Filling a container -/

section

variable {wanted : String → Nat → Bool} {key : String} {inner parent : Partial}
  {outer : List Partial} {depth : Nat} {rest : List (Event × Nat)}

theorem Selector.run_startArray :
    (capturing ⟨key, inner, outer⟩).run wanted ((.startArray, depth) :: rest)
      = (capturing ⟨key, .array [], inner :: outer⟩).run wanted rest := rfl

theorem Selector.run_startObject :
    (capturing ⟨key, inner, outer⟩).run wanted ((.startObject, depth) :: rest)
      = (capturing ⟨key, .object [] none, inner :: outer⟩).run wanted rest :=
  rfl

theorem Selector.run_endArray :
    (capturing ⟨key, inner, parent :: outer⟩).run wanted
        ((.endArray, depth) :: rest)
      = (capturing ⟨key, parent.add inner.toValue, outer⟩).run wanted rest :=
  rfl

theorem Selector.run_endObject :
    (capturing ⟨key, inner, parent :: outer⟩).run wanted
        ((.endObject, depth) :: rest)
      = (capturing ⟨key, parent.add inner.toValue, outer⟩).run wanted rest :=
  rfl

theorem Selector.run_key {name : String} :
    (capturing ⟨key, inner, outer⟩).run wanted ((.key name, depth) :: rest)
      = (capturing ⟨key, inner.name name, outer⟩).run wanted rest := rfl

end

mutual

/-- A tree that is told while a container is filled becomes its next value. -/
theorem Tree.run_capturing (t : Tree) (wanted : String → Nat → Bool)
    (key : String) (inner : Partial) (outer : List Partial) (depth : Nat)
    (rest : List (Event × Nat)) :
    (Selector.capturing ⟨key, inner, outer⟩).run wanted
        (t.events depth ++ rest)
      = (Selector.capturing ⟨key, inner.add t.toValue, outer⟩).run wanted
          rest := by
  match t with
  | .null | .bool _ | .number _ | .string _ => rfl
  | .array items =>
      rw [Tree.events, List.cons_append, List.cons_append, List.append_assoc,
        Selector.run_startArray, Tree.run_capturing_items items,
        List.singleton_append, Selector.run_endArray]
      simp [Partial.toValue, Tree.toValue]
  | .object members =>
      rw [Tree.events, List.cons_append, List.cons_append, List.append_assoc,
        Selector.run_startObject, Tree.run_capturing_members members,
        List.singleton_append, Selector.run_endObject, Partial.toValue,
        Tree.toValue]

theorem Tree.run_capturing_items (items : List Tree)
    (wanted : String → Nat → Bool) (key : String) (before : List Value)
    (outer : List Partial) (depth : Nat) (rest : List (Event × Nat)) :
    (Selector.capturing ⟨key, .array before, outer⟩).run wanted
        (Tree.itemEvents depth items ++ rest)
      = (Selector.capturing ⟨key,
          .array ((Tree.itemValues items).reverse ++ before), outer⟩).run
            wanted rest := by
  match items with
  | [] => rfl
  | item :: others =>
      rw [Tree.itemEvents, List.append_assoc, Tree.run_capturing item,
        Partial.add, Tree.run_capturing_items others]
      simp [Tree.itemValues]

theorem Tree.run_capturing_members (members : List (String × Tree))
    (wanted : String → Nat → Bool) (key : String)
    (before : List (String × Value)) (outer : List Partial) (depth : Nat)
    (rest : List (Event × Nat)) :
    (Selector.capturing ⟨key, .object before none, outer⟩).run wanted
        (Tree.memberEvents depth members ++ rest)
      = (Selector.capturing ⟨key,
          .object (Tree.memberValues before members) none, outer⟩).run
            wanted rest := by
  match members with
  | [] => rfl
  | (name, value) :: others =>
      rw [Tree.memberEvents, List.cons_append, List.cons_append,
        List.append_assoc, Selector.run_key, Partial.name,
        Tree.run_capturing value, Partial.add,
        Tree.run_capturing_members others]
      rfl

end

/-! ## Watching for one depth -/

/-- Wants certain keys where exactly `n` containers are around them. -/
def wantedAt (n : Nat) (p : String → Bool) : String → Nat → Bool :=
  fun key depth => depth = n && p key

/-- The members of a tree that are wanted, as what a selector finds. -/
def Tree.selected (n : Nat) (p : String → Bool) (t : Tree) : List Selected :=
  ((t.membersAt n).filter fun member => p member.1).filterMap Tree.toSelected?

/-- What a selector gives in the end when it found something before. -/
def Selector.foundBefore (found : List Selected)
    (r : Selector × List Selected) : Selector × List Selected :=
  (r.1, found ++ r.2)

theorem Selector.foundBefore_append (a b : List Selected)
    (r : Selector × List Selected) :
    foundBefore a (foundBefore b r) = foundBefore (a ++ b) r := by
  simp [foundBefore]

/-- What follows a wanted key is found if it is a container. -/
theorem Tree.run_armed (t : Tree) (wanted : String → Nat → Bool)
    (key : String) (depth : Nat) (rest : List (Event × Nat)) :
    (Selector.watching (some key)).run wanted (t.events depth ++ rest)
      = Selector.foundBefore (Tree.toSelected? (key, t)).toList
          ((Selector.watching none).run wanted rest) := by
  match t with
  | .null | .bool _ | .number _ | .string _ => rfl
  | .array items =>
      have hbegin : ∀ told, (Selector.watching (some key)).run wanted
          ((.startArray, depth + 1) :: told)
            = (Selector.capturing ⟨key, .array [], []⟩).run wanted told :=
        fun _ => rfl
      have hend : ∀ inner, (Selector.capturing ⟨key, inner, []⟩).run wanted
          ((.endArray, depth + 1) :: rest)
            = Selector.foundBefore [inner.toSelected key]
                ((Selector.watching none).run wanted rest) := fun _ => rfl
      rw [Tree.events, List.cons_append, List.cons_append, List.append_assoc,
        hbegin, Tree.run_capturing_items, List.singleton_append, hend]
      simp [Partial.toSelected, Tree.toSelected?]
  | .object members =>
      have hbegin : ∀ told, (Selector.watching (some key)).run wanted
          ((.startObject, depth + 1) :: told)
            = (Selector.capturing ⟨key, .object [] none, []⟩).run wanted
                told := fun _ => rfl
      have hend : ∀ inner, (Selector.capturing ⟨key, inner, []⟩).run wanted
          ((.endObject, depth + 1) :: rest)
            = Selector.foundBefore [inner.toSelected key]
                ((Selector.watching none).run wanted rest) := fun _ => rfl
      rw [Tree.events, List.cons_append, List.cons_append, List.append_assoc,
        hbegin, Tree.run_capturing_members, List.singleton_append, hend]
      rfl

section

variable {n : Nat} {p : String → Bool}

/-- The wanted members among those of an object whose keys have `depth`
containers around them. -/
def Tree.selectedOf (n : Nat) (p : String → Bool) (depth : Nat) :
    List (String × Tree) → List Selected
  | [] => []
  | (key, value) :: rest =>
      (if wantedAt n p key depth then (Tree.toSelected? (key, value)).toList
        else value.selected (n - depth) p)
        ++ Tree.selectedOf n p depth rest

theorem Tree.selected_zero (t : Tree) : t.selected 0 p = [] := by
  simp [selected, membersAt]

theorem Tree.selected_scalar {t : Tree} (h : ∀ m, t.membersAt m = [])
    (m : Nat) : t.selected m p = [] := by
  simp [selected, h]

theorem Tree.selectedOf_here (members : List (String × Tree)) :
    Tree.selectedOf n p n members
      = (members.filter fun member => p member.1).filterMap
          Tree.toSelected? := by
  induction members with
  | nil => rfl
  | cons member members ih =>
      obtain ⟨key, value⟩ := member
      rw [selectedOf, ih, Nat.sub_self, selected_zero, List.filter_cons]
      cases hp : p key with
      | false => simp [wantedAt, hp]
      | true =>
          cases hc : Tree.toSelected? (key, value) <;>
            simp [wantedAt, hp, hc]

theorem Tree.selectedOf_elsewhere {depth : Nat} (h : depth ≠ n)
    (members : List (String × Tree)) :
    Tree.selectedOf n p depth members
      = members.flatMap fun member => member.2.selected (n - depth) p := by
  induction members with
  | nil => rfl
  | cons member members ih =>
      obtain ⟨key, value⟩ := member
      rw [selectedOf, ih, List.flatMap_cons, if_neg]
      simp [wantedAt, h]

theorem Tree.selected_flatMap {α : Type} (k : Nat) (f : α → Tree)
    (l : List α) :
    ((l.flatMap fun a => (f a).membersAt k).filter
        fun member => p member.1).filterMap Tree.toSelected?
      = l.flatMap fun a => (f a).selected k p := by
  rw [List.filter_flatMap, List.filterMap_flatMap]
  rfl

theorem Tree.selected_object (members : List (String × Tree)) (depth : Nat) :
    (Tree.object members).selected (n - depth) p
      = Tree.selectedOf n p (depth + 1) members := by
  rcases hk : n - depth with _ | _ | k
  · have hd : n - (depth + 1) = 0 := by omega
    rw [selected_zero, selectedOf_elsewhere (by omega), hd]
    simp [selected_zero]
  · obtain rfl : n = depth + 1 := by omega
    rw [selectedOf_here, selected, membersAt]
  · have hd : n - (depth + 1) = k + 1 := by omega
    rw [selectedOf_elsewhere (by omega), hd, selected, membersAt,
      selected_flatMap]

theorem Tree.selected_array (items : List Tree) (depth : Nat) :
    (Tree.array items).selected (n - depth) p
      = items.flatMap fun item => item.selected (n - (depth + 1)) p := by
  rcases hk : n - depth with _ | _ | k
  · have hd : n - (depth + 1) = 0 := by omega
    rw [hd]
    simp [selected_zero]
  · have hd : n - (depth + 1) = 0 := by omega
    rw [hd]
    simp [selected, membersAt]
  · have hd : n - (depth + 1) = k + 1 := by omega
    rw [hd, selected, membersAt]
    exact selected_flatMap (k + 1) id items

mutual

/-- While no wanted key came just before, what is found in a tree is what the
tree has at the depth that is wanted. -/
theorem Tree.run_watching (t : Tree) (depth : Nat)
    (rest : List (Event × Nat)) :
    (Selector.watching none).run (wantedAt n p) (t.events depth ++ rest)
      = Selector.foundBefore (t.selected (n - depth) p)
          ((Selector.watching none).run (wantedAt n p) rest) := by
  match t with
  | .null | .bool _ | .number _ | .string _ =>
      rw [Tree.selected_scalar (by rintro (_ | _ | _) <;> rfl)]
      rfl
  | .array items =>
      have hbegin : ∀ told, (Selector.watching none).run (wantedAt n p)
          ((.startArray, depth + 1) :: told)
            = (Selector.watching none).run (wantedAt n p) told :=
        fun _ => rfl
      have hend : (Selector.watching none).run (wantedAt n p)
          ((.endArray, depth + 1) :: rest)
            = (Selector.watching none).run (wantedAt n p) rest := rfl
      rw [Tree.events, List.cons_append, List.cons_append, List.append_assoc,
        hbegin, Tree.run_watching_items items, List.singleton_append, hend,
        Tree.selected_array]
  | .object members =>
      have hbegin : ∀ told, (Selector.watching none).run (wantedAt n p)
          ((.startObject, depth + 1) :: told)
            = (Selector.watching none).run (wantedAt n p) told :=
        fun _ => rfl
      have hend : (Selector.watching none).run (wantedAt n p)
          ((.endObject, depth + 1) :: rest)
            = (Selector.watching none).run (wantedAt n p) rest := rfl
      rw [Tree.events, List.cons_append, List.cons_append, List.append_assoc,
        hbegin, Tree.run_watching_members members, List.singleton_append,
        hend, Tree.selected_object]

theorem Tree.run_watching_items (items : List Tree) (depth : Nat)
    (rest : List (Event × Nat)) :
    (Selector.watching none).run (wantedAt n p)
        (Tree.itemEvents depth items ++ rest)
      = Selector.foundBefore
          (items.flatMap fun item => item.selected (n - depth) p)
          ((Selector.watching none).run (wantedAt n p) rest) := by
  match items with
  | [] => rfl
  | item :: others =>
      rw [Tree.itemEvents, List.append_assoc, Tree.run_watching item,
        Tree.run_watching_items others, Selector.foundBefore_append]
      rfl

theorem Tree.run_watching_members (members : List (String × Tree))
    (depth : Nat) (rest : List (Event × Nat)) :
    (Selector.watching none).run (wantedAt n p)
        (Tree.memberEvents depth members ++ rest)
      = Selector.foundBefore (Tree.selectedOf n p depth members)
          ((Selector.watching none).run (wantedAt n p) rest) := by
  match members with
  | [] => rfl
  | (key, value) :: others =>
      have hkey : ∀ told, (Selector.watching none).run (wantedAt n p)
          ((.key key, depth) :: told)
            = (Selector.watching (if wantedAt n p key depth then some key
                else none)).run (wantedAt n p) told := fun _ => rfl
      rw [Tree.memberEvents, List.cons_append, List.cons_append,
        List.append_assoc, hkey, Tree.selectedOf]
      split
      · rw [Tree.run_armed, Tree.run_watching_members others,
          Selector.foundBefore_append]
      · rw [Tree.run_watching value, Tree.run_watching_members others,
          Selector.foundBefore_append]

end

end

end Ridership.Json

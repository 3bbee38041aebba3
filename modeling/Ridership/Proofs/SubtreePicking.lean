import Ridership.Proofs.CaptureKeys
import Ridership.Proofs.MemberValues
import Ridership.Proofs.TextTree

/-!
# What a selector picks, whatever it wants

`TreeSelection` speaks of keys wanted at one depth. A filter can ask for
anything, and then a wanted member may lie in another, so what is picked is a
matter of the members around it too. `Tree.members` walks a tree with all that
is needed to say it: each member comes with the keys around it and with the
number of events told when its value ends. A selector finds exactly the wanted
containers with nothing wanted around them, and finds each when its last event
is told.

The induction over the tree is in two parts, as the selector has two modes. One
says what becomes of a container that is being filled (`Tree.run_capturing`);
the other one, here, needs from it only that nothing is found on the way.
-/

namespace Ridership.Json

/-! ## The members of a tree -/

/-- A member of an object in a tree, and where it stands. -/
structure Tree.Member where
  /-- The keys of the members it lies in, outermost first, each with the number
  of containers around it. -/
  around : List (String × Nat)
  key : String
  /-- How many containers are around the key. -/
  depth : Nat
  value : Tree
  /-- How many events have been told when the value has ended. -/
  closing : Nat

mutual

/-- The members in a tree, in the order of the text. The tree has `depth`
containers around it, and before it `told` events have been told. -/
def Tree.membersIn (around : List (String × Nat)) (depth told : Nat) :
    Tree → List Tree.Member
  | .array items => Tree.membersInItems around (depth + 1) (told + 1) items
  | .object members =>
      Tree.membersInMembers around (depth + 1) (told + 1) members
  | _ => []

def Tree.membersInItems (around : List (String × Nat)) (depth told : Nat) :
    List Tree → List Tree.Member
  | [] => []
  | item :: rest =>
      item.membersIn around depth told
        ++ Tree.membersInItems around depth
          (told + (item.events depth).length) rest

def Tree.membersInMembers (around : List (String × Nat)) (depth told : Nat) :
    List (String × Tree) → List Tree.Member
  | [] => []
  | (key, value) :: rest =>
      ⟨around, key, depth, value, told + 1 + (value.events depth).length⟩
        :: value.membersIn (around ++ [(key, depth)]) depth (told + 1)
        ++ Tree.membersInMembers around depth
          (told + 1 + (value.events depth).length) rest

end

/-- All members in a whole tree. -/
def Tree.members (t : Tree) : List Tree.Member :=
  t.membersIn [] 0 0

section

variable (wanted : String → Nat → Bool)

/-- Whether a member lies in a wanted one. All that something lies in are
containers, so the outermost of them that is wanted is picked. -/
def Tree.Member.isCovered (m : Member) : Bool :=
  m.around.any fun outer => wanted outer.1 outer.2

/-- What a selector finds of a member, and after how many events: a container
that is wanted and does not lie in another one. -/
def Tree.Member.pick? (m : Member) : Option (Nat × Selected) :=
  if wanted m.key m.depth && !m.isCovered wanted then
    (toSelected? (m.key, m.value)).map fun found => (m.closing, found)
  else none

/-- What is picked from a tree, in the order of the text. -/
def Tree.picked (t : Tree) : List (Nat × Selected) :=
  t.members.filterMap (Member.pick? wanted)

/-- Takes events one after another when `told` have been told before. All that
is found comes with the number of events told by then. -/
def Selector.runFrom (s : Selector) (told : Nat) :
    List (Event × Nat) → Selector × List (Nat × Selected)
  | [] => (s, [])
  | (e, depth) :: rest =>
      let (s, found) := s.accept wanted e depth
      let (s, more) := s.runFrom (told + 1) rest
      (s, found.toList.map (fun found => (told + 1, found)) ++ more)

end

/-! ## Counted runs -/

section

variable {wanted : String → Nat → Bool}

theorem Selector.runFrom_cons (s : Selector) (told : Nat) (e : Event)
    (depth : Nat) (rest : List (Event × Nat)) :
    s.runFrom wanted told ((e, depth) :: rest)
      = (((s.accept wanted e depth).1.runFrom wanted (told + 1) rest).1,
        (s.accept wanted e depth).2.toList.map
            (fun found => (told + 1, found))
          ++ ((s.accept wanted e depth).1.runFrom wanted (told + 1) rest).2) :=
  rfl

theorem Selector.runFrom_append (s : Selector) (told : Nat)
    (events rest : List (Event × Nat)) :
    s.runFrom wanted told (events ++ rest)
      = (((s.runFrom wanted told events).1.runFrom wanted
            (told + events.length) rest).1,
        (s.runFrom wanted told events).2
          ++ ((s.runFrom wanted told events).1.runFrom wanted
            (told + events.length) rest).2) := by
  induction events generalizing s told with
  | nil => rfl
  | cons first events ih =>
      obtain ⟨e, depth⟩ := first
      have hlength : told + 1 + events.length
          = told + ((e, depth) :: events).length := by
        rw [List.length_cons]
        omega
      rw [List.cons_append, runFrom_cons, runFrom_cons, ih, hlength,
        List.append_assoc]

/-- Where nothing is found there is nothing to count. -/
theorem Selector.runFrom_of_quiet {s s' : Selector} (told : Nat)
    {events : List (Event × Nat)} (h : s.run wanted events = (s', [])) :
    s.runFrom wanted told events = (s', []) := by
  induction events generalizing s told with
  | nil =>
      cases h
      rfl
  | cons first events ih =>
      obtain ⟨e, depth⟩ := first
      have hrun : s.run wanted ((e, depth) :: events)
          = (((s.accept wanted e depth).1.run wanted events).1,
            (s.accept wanted e depth).2.toList
              ++ ((s.accept wanted e depth).1.run wanted events).2) := rfl
      obtain ⟨hrest, hfound⟩ := Prod.mk.inj (hrun.symm.trans h)
      obtain ⟨hnone, hmore⟩ := List.append_eq_nil_iff.mp hfound
      rw [runFrom_cons, ih (told + 1) (Prod.ext hrest hmore), hnone]
      rfl

/-! ## What lies in a wanted member -/

mutual

theorem Tree.around_membersIn (t : Tree) (around : List (String × Nat))
    (depth told : Nat) {m : Member} (h : m ∈ t.membersIn around depth told) :
    around <+: m.around := by
  match t with
  | .null | .bool _ | .number _ | .string _ => cases h
  | .array items => exact Tree.around_membersInItems items _ _ _ h
  | .object members => exact Tree.around_membersInMembers members _ _ _ h

theorem Tree.around_membersInItems (items : List Tree)
    (around : List (String × Nat)) (depth told : Nat) {m : Member}
    (h : m ∈ Tree.membersInItems around depth told items) :
    around <+: m.around := by
  match items with
  | [] => cases h
  | item :: others =>
      rcases List.mem_append.mp h with h | h
      · exact Tree.around_membersIn item _ _ _ h
      · exact Tree.around_membersInItems others _ _ _ h

theorem Tree.around_membersInMembers (members : List (String × Tree))
    (around : List (String × Nat)) (depth told : Nat) {m : Member}
    (h : m ∈ Tree.membersInMembers around depth told members) :
    around <+: m.around := by
  match members with
  | [] => cases h
  | (key, value) :: others =>
      rcases List.mem_append.mp h with h | h
      · rcases List.mem_cons.mp h with rfl | h
        · exact List.prefix_rfl
        · exact (List.prefix_append _ _).trans
            (Tree.around_membersIn value _ _ _ h)
      · exact Tree.around_membersInMembers others _ _ _ h

end

/-- Nothing is picked from a tree that lies in a wanted member. -/
theorem Tree.picked_of_covered (t : Tree) {around : List (String × Nat)}
    {outer : String × Nat} (houter : outer ∈ around)
    (hwanted : wanted outer.1 outer.2 = true) (depth told : Nat) :
    (t.membersIn around depth told).filterMap (Member.pick? wanted) = [] := by
  refine List.filterMap_eq_nil_iff.mpr fun m hm => ?_
  have hmem : outer ∈ m.around :=
    (Tree.around_membersIn t around depth told hm).subset houter
  have hcovered : m.isCovered wanted = true :=
    List.any_eq_true.mpr ⟨outer, hmem, hwanted⟩
  rw [Member.pick?, hcovered, Bool.not_true, Bool.and_false]
  rfl

/-! ## Runs over a tree -/

/-- What a selector gives in the end when it found something before, counted. -/
def Selector.after (found : List (Nat × Selected))
    (r : Selector × List (Nat × Selected)) :
    Selector × List (Nat × Selected) :=
  (r.1, found ++ r.2)

theorem Selector.after_after (a b : List (Nat × Selected))
    (r : Selector × List (Nat × Selected)) :
    after a (after b r) = after (a ++ b) r := by
  rw [after, after, after, List.append_assoc]

/-- What has been gathered of a container is found with its end. -/
theorem Selector.runFrom_closed {s : Selector} {key : String} {p : Partial}
    {opening : List (Event × Nat)} {e : Event} {found : Option Selected}
    (hfill : s.run wanted opening = (.capturing ⟨key, p, []⟩, []))
    (hclose : ∀ depth, (Selector.capturing ⟨key, p, []⟩).accept wanted e depth
      = (.watching none, found)) (depth told : Nat)
    (rest : List (Event × Nat)) :
    s.runFrom wanted told (opening ++ (e, depth) :: rest)
      = after (found.toList.map fun found => (told + opening.length + 1, found))
          ((watching none).runFrom wanted (told + opening.length + 1) rest) := by
  rw [runFrom_append, runFrom_of_quiet told hfill, runFrom_cons, hclose]
  rfl

/-- What follows a wanted key is found at its last event if it is a
container. -/
theorem Tree.runFrom_armed (t : Tree) (key : String) (depth told : Nat)
    (rest : List (Event × Nat)) :
    (Selector.watching (some key)).runFrom wanted told (t.events depth ++ rest)
      = Selector.after
          ((Tree.toSelected? (key, t)).toList.map
            fun found => (told + (t.events depth).length, found))
          ((Selector.watching none).runFrom wanted
            (told + (t.events depth).length) rest) := by
  cases t with
  | null | bool | number | string => rfl
  | array items =>
      have hfill := Tree.run_capturing_items items wanted key [] [] (depth + 1) []
      rw [List.append_nil, List.append_nil] at hfill
      have hclosed := @Selector.runFrom_closed wanted (.watching (some key)) key
        _ ((.startArray, depth + 1) :: Tree.itemEvents (depth + 1) items)
        .endArray _ hfill (fun _ => rfl) (depth + 1) told rest
      rw [Tree.events, List.append_assoc, List.singleton_append, hclosed]
      simp [Tree.toSelected?, Nat.add_assoc, Partial.toSelected]
  | object members =>
      have hfill := Tree.run_capturing_members members wanted key [] []
        (depth + 1) []
      rw [List.append_nil] at hfill
      have hclosed := @Selector.runFrom_closed wanted (.watching (some key)) key
        _ ((.startObject, depth + 1) :: Tree.memberEvents (depth + 1) members)
        .endObject _ hfill (fun _ => rfl) (depth + 1) told rest
      rw [Tree.events, List.append_assoc, List.singleton_append, hclosed]
      simp [Tree.toSelected?, Nat.add_assoc, Partial.toSelected]

/-- While nothing is wanted, only a key can change that. -/
theorem Selector.runFrom_unarmed {e : Event} (he : ∀ key, e ≠ .key key)
    (depth told : Nat) (rest : List (Event × Nat)) :
    (watching none).runFrom wanted told ((e, depth) :: rest)
      = (watching none).runFrom wanted (told + 1) rest := by
  cases e with
  | key key => exact absurd rfl (he key)
  | startObject | endObject | startArray | endArray => rfl
  | string | number | bool | null => rfl

mutual

/-- While no wanted key came just before and none is around, what is found in a
tree is what is picked from it. -/
theorem Tree.runFrom_watching (t : Tree) (around : List (String × Nat))
    (hfree : around.any (fun outer => wanted outer.1 outer.2) = false)
    (depth told : Nat) (rest : List (Event × Nat)) :
    (Selector.watching none).runFrom wanted told (t.events depth ++ rest)
      = Selector.after
          ((t.membersIn around depth told).filterMap (Member.pick? wanted))
          ((Selector.watching none).runFrom wanted
            (told + (t.events depth).length) rest) := by
  match t with
  | .null | .bool _ | .number _ | .string _ => rfl
  | .array items =>
      rw [Tree.events, List.cons_append, List.cons_append, List.append_assoc,
        Selector.runFrom_unarmed (by simp),
        Tree.runFrom_watching_items items around hfree, List.singleton_append,
        Selector.runFrom_unarmed (by simp), Tree.membersIn, List.length_cons,
        List.length_append, List.length_singleton]
      congr 2
      omega
  | .object members =>
      rw [Tree.events, List.cons_append, List.cons_append, List.append_assoc,
        Selector.runFrom_unarmed (by simp),
        Tree.runFrom_watching_members members around hfree,
        List.singleton_append, Selector.runFrom_unarmed (by simp),
        Tree.membersIn, List.length_cons, List.length_append,
        List.length_singleton]
      congr 2
      omega

theorem Tree.runFrom_watching_items (items : List Tree)
    (around : List (String × Nat))
    (hfree : around.any (fun outer => wanted outer.1 outer.2) = false)
    (depth told : Nat) (rest : List (Event × Nat)) :
    (Selector.watching none).runFrom wanted told
        (Tree.itemEvents depth items ++ rest)
      = Selector.after
          ((Tree.membersInItems around depth told items).filterMap
            (Member.pick? wanted))
          ((Selector.watching none).runFrom wanted
            (told + (Tree.itemEvents depth items).length) rest) := by
  match items with
  | [] => rfl
  | item :: others =>
      rw [Tree.itemEvents, List.append_assoc,
        Tree.runFrom_watching item around hfree,
        Tree.runFrom_watching_items others around hfree, Selector.after_after,
        Tree.membersInItems, List.filterMap_append, List.length_append,
        Nat.add_assoc]

theorem Tree.runFrom_watching_members (members : List (String × Tree))
    (around : List (String × Nat))
    (hfree : around.any (fun outer => wanted outer.1 outer.2) = false)
    (depth told : Nat) (rest : List (Event × Nat)) :
    (Selector.watching none).runFrom wanted told
        (Tree.memberEvents depth members ++ rest)
      = Selector.after
          ((Tree.membersInMembers around depth told members).filterMap
            (Member.pick? wanted))
          ((Selector.watching none).runFrom wanted
            (told + (Tree.memberEvents depth members).length) rest) := by
  match members with
  | [] => rfl
  | (key, value) :: others =>
      have hkey (events : List (Event × Nat)) :
          (Selector.watching none).runFrom wanted told
              ((.key key, depth) :: events)
            = (Selector.watching (if wanted key depth then some key
                else none)).runFrom wanted (told + 1) events := rfl
      have hlength : told + (Tree.memberEvents depth
            ((key, value) :: others)).length
          = told + 1 + (value.events depth).length
            + (Tree.memberEvents depth others).length := by
        rw [Tree.memberEvents, List.length_append, List.length_cons]
        omega
      rw [hlength, Tree.memberEvents, List.cons_append, List.cons_append,
        List.append_assoc, hkey, Tree.membersInMembers,
        List.filterMap_append, List.filterMap_cons, Member.pick?,
        Member.isCovered, hfree]
      dsimp only
      cases hwanted : wanted key depth with
      | true =>
          have hlast : (key, depth) ∈ around ++ [(key, depth)] :=
            List.mem_append_right _ (List.mem_singleton_self _)
          rw [if_pos rfl, Tree.runFrom_armed,
            Tree.runFrom_watching_members others around hfree,
            Selector.after_after,
            Tree.picked_of_covered value hlast hwanted]
          cases Tree.toSelected? (key, value) <;> rfl
      | false =>
          have hstill : (around ++ [(key, depth)]).any
              (fun outer => wanted outer.1 outer.2) = false := by
            rw [List.any_append, hfree]
            simp [hwanted]
          rw [if_neg nofun, Tree.runFrom_watching value _ hstill,
            Tree.runFrom_watching_members others around hfree,
            Selector.after_after]
          rfl

end

end

/-! ## Where members are -/

/-- A member is told among these events, before which `told` have been told, and
its value has ended when `closing` have been. -/
def Tree.Member.IsTold (m : Member) (told : Nat)
    (events : List (Event × Nat)) : Prop :=
  ∃ before after, events
      = before ++ (.key m.key, m.depth) :: (m.value.events m.depth ++ after) ∧
    m.closing = told + before.length + 1 + (m.value.events m.depth).length

section

variable {m : Tree.Member} {told : Nat} {events : List (Event × Nat)}

theorem Tree.Member.IsTold.append (h : m.IsTold told events)
    (more : List (Event × Nat)) : m.IsTold told (events ++ more) := by
  obtain ⟨before, after, rfl, hclosing⟩ := h
  exact ⟨before, after ++ more, by simp, hclosing⟩

theorem Tree.Member.IsTold.behind (more : List (Event × Nat))
    (h : m.IsTold (told + more.length) events) :
    m.IsTold told (more ++ events) := by
  obtain ⟨before, after, rfl, hclosing⟩ := h
  refine ⟨more ++ before, after, by simp, ?_⟩
  rw [hclosing, List.length_append]
  omega

mutual

theorem Tree.isTold_membersIn (t : Tree) (around : List (String × Nat))
    (depth told : Nat) {m : Member} (h : m ∈ t.membersIn around depth told) :
    m.IsTold told (t.events depth) := by
  match t with
  | .null | .bool _ | .number _ | .string _ => cases h
  | .array items =>
      have hitems := Tree.isTold_membersInItems items _ _ _ h
      exact (Member.IsTold.behind [(.startArray, depth + 1)] hitems).append _
  | .object members =>
      have hmembers := Tree.isTold_membersInMembers members _ _ _ h
      exact (Member.IsTold.behind [(.startObject, depth + 1)]
        hmembers).append _

theorem Tree.isTold_membersInItems (items : List Tree)
    (around : List (String × Nat)) (depth told : Nat) {m : Member}
    (h : m ∈ Tree.membersInItems around depth told items) :
    m.IsTold told (Tree.itemEvents depth items) := by
  match items with
  | [] => cases h
  | item :: others =>
      rcases List.mem_append.mp h with h | h
      · exact (Tree.isTold_membersIn item _ _ _ h).append _
      · exact (Tree.isTold_membersInItems others _ _ _ h).behind _

theorem Tree.isTold_membersInMembers (members : List (String × Tree))
    (around : List (String × Nat)) (depth told : Nat) {m : Member}
    (h : m ∈ Tree.membersInMembers around depth told members) :
    m.IsTold told (Tree.memberEvents depth members) := by
  match members with
  | [] => cases h
  | (key, value) :: others =>
      rw [Tree.memberEvents]
      rcases List.mem_append.mp h with h | h
      · refine Member.IsTold.append ?_ _
        rcases List.mem_cons.mp h with rfl | h
        · exact ⟨[], [], by simp, rfl⟩
        · exact (Tree.isTold_membersIn value _ _ _ h).behind
            [(.key key, depth)]
      · refine Member.IsTold.behind _ ?_
        rw [List.length_cons, Nat.add_comm _ 1, ← Nat.add_assoc]
        exact Tree.isTold_membersInMembers others _ _ _ h

end

end

/-! ## What is picked -/

def Selected.key : Selected → String
  | .object key _ | .array key _ => key

def Selected.value : Selected → Value
  | .object _ members => .object members
  | .array _ items => .array items

theorem Tree.toSelected?_eq_some {key : String} {t : Tree} {found : Selected} :
    toSelected? (key, t) = some found
      ↔ found.key = key ∧ found.value = t.toValue := by
  cases t with
  | null | bool | string =>
      refine iff_of_false (by rintro ⟨⟩) ?_
      rintro ⟨-, h⟩
      cases found <;> cases h
  | number literal =>
      refine iff_of_false (by rintro ⟨⟩) ?_
      rintro ⟨-, h⟩
      rw [toValue] at h
      cases hn : Number.ofLiteral? literal <;> rw [hn] at h <;>
        cases found <;> cases h
  | array items =>
      cases found with
      | object =>
          refine iff_of_false (by rintro ⟨⟩) ?_
          rintro ⟨-, ⟨⟩⟩
      | array key' items' =>
          simp [toSelected?, Selected.key, Selected.value, toValue, eq_comm]
  | object members =>
      cases found with
      | array =>
          refine iff_of_false (by rintro ⟨⟩) ?_
          rintro ⟨-, ⟨⟩⟩
      | object key' members' =>
          simp [toSelected?, Selected.key, Selected.value, toValue, eq_comm]

theorem Tree.Member.pick?_eq_some {wanted : String → Nat → Bool} {m : Member}
    {closing : Nat} {found : Selected} :
    m.pick? wanted = some (closing, found) ↔
      wanted m.key m.depth = true ∧
      (∀ outer ∈ m.around, wanted outer.1 outer.2 = false) ∧
      closing = m.closing ∧ found.key = m.key ∧
      found.value = m.value.toValue := by
  have hfree : m.isCovered wanted = false
      ↔ ∀ outer ∈ m.around, wanted outer.1 outer.2 = false := by
    simp [isCovered]
  rw [← hfree, ← toSelected?_eq_some, pick?]
  cases wanted m.key m.depth <;> cases m.isCovered wanted <;>
    cases toSelected? (m.key, m.value) <;> simp [eq_comm]

/-- What it means for a selector to pick from a tree. -/
structure Selector.Picks (wanted : String → Nat → Bool) (t : Tree) :
    Prop where
  /-- What is found while the tree is told is what is picked from it, in the
  order of the text, and in the end the selector is as it was. -/
  found : start.runFrom wanted 0 (t.events 0) = (start, t.picked wanted)
  /-- A member is picked if it is wanted, has a container for a value and lies
  in no wanted one. The value is that of its tree. -/
  pick_iff : ∀ m : Tree.Member, ∀ closing found,
    m.pick? wanted = some (closing, found) ↔
      wanted m.key m.depth = true ∧
      (∀ outer ∈ m.around, wanted outer.1 outer.2 = false) ∧
      closing = m.closing ∧ found.key = m.key ∧
      found.value = m.value.toValue
  value : ∀ v : Tree, v.ReadsAs v.toValue
  /-- It is found at the last event of its value. -/
  closing : ∀ m ∈ t.members, m.IsTold 0 (t.events 0)
  /-- Then no container is under way. -/
  idle : (start.runFrom wanted 0 (t.events 0)).1.isCapturing = false
  /-- The container under way that takes a value has a key for it, if it is an
  object. -/
  keyed : ∀ before e depth after c p,
    t.events 0 = before ++ (e, depth) :: after →
    (start.run wanted before).1 = .capturing c → c.receiver? e = some p →
      p.isKeyed = true ∧
        ∃ c' value, c.accept e = .inl c' ∧ c'.inner = p.add value
  /-- The events are those of any text with this tree, in whatever
  parts it comes. -/
  scanned : ∀ parts : List (List UInt8), Scanner.Accepts parts.flatten →
    Tree.ofText? parts.flatten = some t →
      Scanner.transcript parts = (.ok (), t.events 0)

/-- A selector picks from every tree, whatever it wants. -/
theorem Selector.picks_all (wanted : String → Nat → Bool) (t : Tree) :
    Picks wanted t := by
  have hfound : start.runFrom wanted 0 (t.events 0)
      = (start, t.picked wanted) := by
    have h := @Tree.runFrom_watching wanted t [] rfl 0 0 []
    rw [List.append_nil] at h
    rw [start, h, after]
    exact Prod.ext rfl (List.append_nil _)
  have hkeyed : start.AllKeyed wanted (t.events 0) := by
    have h := @Tree.allKeyed_watching wanted t 0 [] trivial
    rwa [List.append_nil] at h
  constructor
  case found => exact hfound
  case pick_iff => exact fun m closing found => Tree.Member.pick?_eq_some
  case value => exact Tree.toValue_readsAs
  case closing => exact fun m hm => Tree.isTold_membersIn t [] 0 0 hm
  case idle =>
    rw [hfound]
    rfl
  case keyed =>
    intro before e depth after c p h hstate hreceiver
    rw [h] at hkeyed
    have hat := hkeyed.at
    rw [hstate] at hat
    exact ⟨hat p hreceiver, Capture.accept_of_receiver hreceiver⟩
  case scanned =>
    intro parts haccepts htree
    obtain ⟨tree, hof, htold⟩ := haccepts.tree
    obtain rfl : tree = t := Option.some.inj (hof.symm.trans htree)
    have hone : parts.flatten = [parts.flatten].flatten := by simp
    rw [Scanner.transcript_eq_of_flatten_eq hone]
    exact Prod.ext haccepts.1 htold

end Ridership.Json

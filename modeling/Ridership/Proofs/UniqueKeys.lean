import Ridership.Json.Decode
import Ridership.Proofs.MemberValues
import Ridership.Proofs.WrittenText

/-!
# Texts that repeat no key

A text is unambiguous if no object in it, however deep, has a key twice. That
is a property of its tree, and the tree of a text that was written is that of
the value (`unambiguous_text`), so it becomes one of values, with a rule for
each kind of container.

Values that come out of a text have it, whether the text had it or not, for an
object is built member by member and a key that comes again replaces the first.
A record that keeps the fields it does not know has it again when it is
written: it takes its own fields out of those that it keeps
(`nodup_record`).
-/

namespace Ridership.Json

/-! ## Objects of a tree -/

mutual

/-- The members of every object in a tree, at any depth. -/
def Tree.objects : Tree → List (List (String × Tree))
  | .array items => Tree.itemObjects items
  | .object members => members :: Tree.memberObjects members
  | _ => []

def Tree.itemObjects : List Tree → List (List (String × Tree))
  | [] => []
  | item :: rest => item.objects ++ Tree.itemObjects rest

def Tree.memberObjects : List (String × Tree) → List (List (String × Tree))
  | [] => []
  | (_, value) :: rest => value.objects ++ Tree.memberObjects rest

end

/-- No object has a key twice. -/
def Tree.KeysOnce (t : Tree) : Prop :=
  ∀ members ∈ t.objects, (members.map Prod.fst).Nodup

instance (t : Tree) : Decidable t.KeysOnce :=
  inferInstanceAs (Decidable (∀ members ∈ t.objects, _))

/-- A JSON text in which no object has a key twice. -/
def Unambiguous (text : String) : Prop :=
  ∃ t, Tree.ofText? (Text.Utf8.encode text) = some t ∧ t.KeysOnce

/-- The same of a value that is to be written. -/
def Value.KeysOnce (v : Value) : Prop :=
  v.toTree.KeysOnce

theorem unambiguous_text (v : Value) : Unambiguous v.text ↔ v.KeysOnce := by
  constructor
  · rintro ⟨t, ht, h⟩
    rw [v.ofText?_text] at ht
    obtain rfl := Option.some.inj ht
    exact h
  · exact fun h => ⟨v.toTree, v.ofText?_text, h⟩

/-! ## Containers -/

theorem Tree.mem_itemObjects {items : List Tree}
    {members : List (String × Tree)} :
    members ∈ Tree.itemObjects items ↔ ∃ t ∈ items, members ∈ t.objects := by
  induction items with
  | nil => simp [Tree.itemObjects]
  | cons item items ih => simp [Tree.itemObjects, ih]

theorem Tree.mem_memberObjects {members : List (String × Tree)}
    {found : List (String × Tree)} :
    found ∈ Tree.memberObjects members
      ↔ ∃ m ∈ members, found ∈ m.2.objects := by
  induction members with
  | nil => simp [Tree.memberObjects]
  | cons member members ih => simp [Tree.memberObjects, ih]

theorem Value.itemTrees_eq_map (items : List Value) :
    Value.itemTrees items = items.map Value.toTree := by
  induction items with
  | nil => rfl
  | cons item items ih => rw [Value.itemTrees, ih, List.map_cons]

theorem Value.memberTrees_eq_map (members : List (String × Value)) :
    Value.memberTrees members = members.map fun m => (m.1, m.2.toTree) := by
  induction members with
  | nil => rfl
  | cons member members ih => rw [Value.memberTrees, ih, List.map_cons]

@[simp] theorem Value.keysOnce_null : Value.null.KeysOnce :=
  List.forall_mem_nil _

@[simp] theorem Value.keysOnce_bool (b : Bool) : (Value.bool b).KeysOnce :=
  List.forall_mem_nil _

@[simp] theorem Value.keysOnce_string (s : String) :
    (Value.string s).KeysOnce :=
  List.forall_mem_nil _

@[simp] theorem Value.keysOnce_number (n : Number) :
    (Value.number n).KeysOnce := by
  cases n with
  | whole n => exact List.forall_mem_nil _
  | float x =>
      rw [KeysOnce, toTree, Number.toTree]
      split
      · exact List.forall_mem_nil _
      · exact List.forall_mem_nil _

theorem Value.keysOnce_array {items : List Value} :
    (Value.array items).KeysOnce ↔ ∀ v ∈ items, v.KeysOnce := by
  simp only [KeysOnce, Tree.KeysOnce, toTree, Tree.objects,
    Tree.mem_itemObjects, itemTrees_eq_map, List.mem_map]
  constructor
  · exact fun h v hv members hm => h members ⟨_, ⟨v, hv, rfl⟩, hm⟩
  · rintro h members ⟨_, ⟨v, hv, rfl⟩, hm⟩
    exact h v hv members hm

theorem Value.keysOnce_object {members : List (String × Value)} :
    (Value.object members).KeysOnce
      ↔ (members.map Prod.fst).Nodup ∧ ∀ m ∈ members, m.2.KeysOnce := by
  have hkeys : (members.map fun m => (m.1, m.2.toTree)).map Prod.fst
      = members.map Prod.fst := by
    rw [List.map_map]
    rfl
  simp only [KeysOnce, Tree.KeysOnce, toTree, Tree.objects,
    List.forall_mem_cons, memberTrees_eq_map, hkeys, Tree.mem_memberObjects,
    List.mem_map]
  refine and_congr_right fun _ => ?_
  constructor
  · exact fun h m hm found hf => h found ⟨_, ⟨m, hm, rfl⟩, hf⟩
  · rintro h found ⟨_, ⟨m, hm, rfl⟩, hf⟩
    exact h m hm found hf

/-! ## Values that come out of a text -/

mutual

theorem Tree.toValue_keysOnce (t : Tree) : t.toValue.KeysOnce := by
  match t with
  | .null => exact Value.keysOnce_null
  | .bool b => exact Value.keysOnce_bool b
  | .string s => exact Value.keysOnce_string s
  | .number literal =>
      rw [Tree.toValue]
      cases Number.ofLiteral? literal with
      | none => exact Value.keysOnce_null
      | some n => exact Value.keysOnce_number n
  | .array items =>
      exact Value.keysOnce_array.mpr (Tree.itemValues_keysOnce items)
  | .object members =>
      exact Value.keysOnce_object.mpr ⟨Tree.nodup_memberValues,
        Tree.memberValues_keysOnce members (List.forall_mem_nil _)⟩

theorem Tree.itemValues_keysOnce (items : List Tree) :
    ∀ v ∈ Tree.itemValues items, v.KeysOnce := by
  match items with
  | [] => exact List.forall_mem_nil _
  | item :: items =>
      exact List.forall_mem_cons.mpr
        ⟨item.toValue_keysOnce, Tree.itemValues_keysOnce items⟩

theorem Tree.memberValues_keysOnce (members : List (String × Tree))
    {before : List (String × Value)} (h : ∀ m ∈ before, m.2.KeysOnce) :
    ∀ m ∈ Tree.memberValues before members, m.2.KeysOnce := by
  match members with
  | [] => exact h
  | (key, value) :: members =>
      refine Tree.memberValues_keysOnce members fun m hm => ?_
      rcases mem_insert hm with hm | rfl
      · exact h m hm
      · exact value.toValue_keysOnce

end

/-! ## Records -/

section

variable {names : List String} {own members : List (String × Value)}

theorem not_mem_otherMembers {key : String} (hkey : key ∈ names) :
    key ∉ (otherMembers names members).map Prod.fst := by
  intro h
  obtain ⟨m, hm, rfl⟩ := List.mem_map.mp h
  have hnew := (List.mem_filter.mp hm).2
  simp [hkey] at hnew

theorem otherMembers_sublist :
    ((otherMembers names members).map Prod.fst).Sublist
      (members.map Prod.fst) :=
  List.filter_sublist.map Prod.fst

/-- The fields that are kept are none of the record's own. -/
theorem nodup_record (hnames : names.Nodup)
    (hown : (own.map Prod.fst).Sublist names)
    (hmembers : (members.map Prod.fst).Nodup) :
    ((own ++ otherMembers names members).map Prod.fst).Nodup := by
  rw [List.map_append, List.nodup_append]
  refine ⟨hown.nodup hnames, otherMembers_sublist.nodup hmembers, ?_⟩
  rintro key hkey _ hother rfl
  exact not_mem_otherMembers (hown.subset hkey) hother

theorem keysOnce_record (hnames : names.Nodup)
    (hown : (own.map Prod.fst).Sublist names)
    (hvalues : ∀ m ∈ own, m.2.KeysOnce)
    (hmembers : (Value.object members).KeysOnce) :
    (Value.object (own ++ otherMembers names members)).KeysOnce := by
  rw [Value.keysOnce_object] at hmembers ⊢
  refine ⟨nodup_record hnames hown hmembers.1, fun m hm => ?_⟩
  rcases List.mem_append.mp hm with hm | hm
  · exact hvalues m hm
  · exact hmembers.2 m (List.mem_filter.mp hm).1

end

end Ridership.Json

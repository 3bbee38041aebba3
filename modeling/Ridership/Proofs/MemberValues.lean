import Mathlib.Data.List.Induction
import Mathlib.Data.List.Nodup
import Ridership.Proofs.Tree

/-!
# What a tree is as a value

A text may give a key of an object twice, a value built from it does not: the
key keeps the place where it came first, and takes the value that came last.
Everything else of a tree goes over into its value one to one. `ReadsAs` says
all of this without a walk over the members.
-/

namespace Ridership.Json

/-! ## Members put in one by one -/

section

variable {key other : String} {value : Value} {members : List (String × Value)}

theorem map_fst_insert :
    (insert key value members).map Prod.fst
      = if key ∈ members.map Prod.fst then members.map Prod.fst
        else members.map Prod.fst ++ [key] := by
  induction members with
  | nil => rfl
  | cons member members ih =>
      rw [insert]
      split
      · next h => simp [h]
      · next h =>
          have h' : ¬ key = member.1 := fun heq => h heq.symm
          rw [List.map_cons, ih]
          simp only [List.map_cons, List.mem_cons, h', false_or]
          split <;> rfl

theorem nodup_insert (h : (members.map Prod.fst).Nodup) :
    ((insert key value members).map Prod.fst).Nodup := by
  rw [map_fst_insert]
  split
  · exact h
  · next hkey =>
      rw [List.nodup_append]
      refine ⟨h, List.nodup_singleton key, fun a ha b hb => ?_⟩
      obtain rfl : b = key := List.mem_singleton.mp hb
      rintro rfl
      exact hkey ha

theorem mem_insert {m : String × Value} (h : m ∈ insert key value members) :
    m ∈ members ∨ m = (key, value) := by
  induction members with
  | nil => exact .inr (List.mem_singleton.mp h)
  | cons member members ih =>
      rw [insert] at h
      split at h
      · rcases List.mem_cons.mp h with h | h
        · exact .inr h
        · exact .inl (List.mem_cons_of_mem _ h)
      · rcases List.mem_cons.mp h with h | h
        · exact .inl (h ▸ List.mem_cons_self)
        · rcases ih h with h | h
          · exact .inl (List.mem_cons_of_mem _ h)
          · exact .inr h

theorem member?_cons {member : String × Value} :
    member? other (member :: members)
      = if member.1 = other then some member.2 else member? other members := by
  rw [member?, List.find?_cons]
  split
  · next h => rw [if_pos (by simpa using h)]; rfl
  · next h => rw [if_neg (by simpa using h)]; rfl

theorem member?_insert :
    member? other (insert key value members)
      = if key = other then some value else member? other members := by
  induction members with
  | nil => rw [insert, member?_cons]
  | cons member members ih =>
      rw [insert]
      split
      · next h =>
          rw [member?_cons, member?_cons, h]
          split <;> rfl
      · next h =>
          rw [member?_cons, ih, member?_cons]
          by_cases hmember : member.1 = other
          · have hkey : ¬ key = other := fun heq => h (hmember.trans heq.symm)
            rw [if_pos hmember, if_neg hkey, if_pos hmember]
          · rw [if_neg hmember, if_neg hmember]

end

/-! ## Trees -/

theorem Tree.itemValues_eq_map (items : List Tree) :
    itemValues items = items.map toValue := by
  induction items with
  | nil => rfl
  | cons item items ih => rw [itemValues, ih, List.map_cons]

section

variable {key : String} {value : Tree} {members : List (String × Tree)}

theorem Tree.memberValues_concat (before : List (String × Value)) :
    memberValues before (members ++ [(key, value)])
      = insert key value.toValue (memberValues before members) := by
  induction members generalizing before with
  | nil => rfl
  | cons member members ih => exact ih _

theorem Tree.nodup_memberValues :
    ((memberValues [] members).map Prod.fst).Nodup := by
  induction members using List.reverseRecOn with
  | nil => exact List.nodup_nil
  | append_singleton members member ih =>
      rw [memberValues_concat]
      exact nodup_insert ih

/-- A key keeps the place where it came first. -/
theorem Tree.map_fst_memberValues :
    (memberValues [] members).map Prod.fst
      = (members.map Prod.fst).eraseDups := by
  induction members using List.reverseRecOn with
  | nil => rfl
  | append_singleton members member ih =>
      have hlast : ([member.1].removeAll (members.map Prod.fst)).eraseDups
          = if member.1 ∈ members.map Prod.fst then [] else [member.1] := by
        rw [List.removeAll, List.filter_cons]
        by_cases h : member.1 ∈ members.map Prod.fst
        · simp [h]
        · simp [h, List.eraseDups_cons]
      rw [memberValues_concat, map_fst_insert, List.map_append, List.map_cons,
        List.map_nil, List.eraseDups_append, hlast, ih]
      simp only [List.mem_eraseDups]
      split
      · rw [List.append_nil]
      · rfl

/-- A key has the value that came last. -/
theorem Tree.member?_memberValues :
    member? key (memberValues [] members)
      = ((members.filter fun member => member.1 = key).getLast?).map
          fun member => member.2.toValue := by
  induction members using List.reverseRecOn with
  | nil => rfl
  | append_singleton members member ih =>
      rw [memberValues_concat, member?_insert, ih, List.filter_append]
      by_cases h : member.1 = key
      · simp [h]
      · simp [h]

end

/-- What a value built from a tree has to be. -/
structure Tree.ReadsAs (t : Tree) (v : Value) : Prop where
  /-- A tree of one event is what that event stands for. -/
  scalar : ∀ e, t.events 0 = [(e, 0)] → e.scalar? = some v
  /-- An array has its items one by one. -/
  array : ∀ items, t = .array items → v = .array (items.map toValue)
  /-- An object has every key once, at its first place with its last value. -/
  object : ∀ members, t = .object members → ∃ values, v = .object values ∧
    values.map Prod.fst = (members.map Prod.fst).eraseDups ∧
    ∀ key, member? key values
      = ((members.filter fun member => member.1 = key).getLast?).map
          fun member => member.2.toValue

theorem Tree.toValue_readsAs (t : Tree) : t.ReadsAs t.toValue where
  scalar := by
    intro e h
    cases t with
    | array items => simp [events] at h
    | object members => simp [events] at h
    | null | bool | number | string =>
        obtain rfl : _ = e := congrArg Prod.fst (List.singleton_inj.mp h)
        rfl
  array := by
    rintro items rfl
    rw [toValue, itemValues_eq_map]
  object := by
    rintro members rfl
    exact ⟨_, rfl, map_fst_memberValues, fun _ => member?_memberValues⟩

end Ridership.Json

import Ridership.Forecast.Edge
import Ridership.Forecast.Trip
import Ridership.Proofs.UniqueKeys

/-!
# Records that were read repeat no key

A record that was read is written from its own fields and from those that came
with it. If the object it was read from had no key twice, neither has the object
that is written: each field of the record is written at most once, under the
name it was read by, and those that came with it have other names.

An edge is read as such a record too, but what is written for it has fields that
were not read, and those are for later.
-/

namespace Ridership.Json

/-! ## What was read -/

theorem ok_of_bind {ε α β : Type} {x : Except ε α} {f : α → Except ε β}
    {b : β} (h : x >>= f = .ok b) : ∃ a, x = .ok a ∧ f a = .ok b := by
  cases x with
  | error => cases h
  | ok a => exact ⟨a, rfl, h⟩

section

variable {α : Type} {name : String} {read : Reader α} {a missing : α}
  {members : List (String × Value)}

theorem mem_of_member? {v : Value} (h : member? name members = some v) :
    (name, v) ∈ members := by
  obtain ⟨m, hm, rfl⟩ := Option.map_eq_some_iff.mp h
  have hname := List.find?_some hm
  obtain rfl : m.1 = name := of_decide_eq_true hname
  exact List.mem_of_find?_eq_some hm

theorem keysOnce_member? (hmembers : (Value.object members).KeysOnce)
    {v : Value} (h : member? name members = some v) : v.KeysOnce :=
  (Value.keysOnce_object.mp hmembers).2 _ (mem_of_member? h)

theorem requiredField_ok (h : requiredField name read members = .ok a) :
    ∃ v, member? name members = some v ∧ read v = .ok a := by
  rw [requiredField] at h
  split at h
  · next v hv => exact ⟨v, hv, h⟩
  · cases h

theorem optionalField_ok (h : optionalField name missing read members = .ok a) :
    a = missing ∨ ∃ v, member? name members = some v ∧ read v = .ok a := by
  rw [optionalField] at h
  split at h
  · next v hv => exact .inr ⟨v, hv, h⟩
  · exact .inl (Except.ok.inj h).symm

/-- A field that is kept as it is comes from the object. -/
theorem keysOnce_anyField (hmembers : (Value.object members).KeysOnce)
    {kept : Option Value}
    (h : optionalField name none readAny members = .ok kept) :
    ∀ v ∈ kept, v.KeysOnce := by
  rcases optionalField_ok h with rfl | ⟨v, hv, hread⟩
  · rintro _ ⟨⟩
  · have hkept : kept = none ∨ kept = some v := by
      unfold readAny at hread
      split at hread
      · exact .inl (Except.ok.inj hread).symm
      · exact .inr (Except.ok.inj hread).symm
    rcases hkept with rfl | rfl
    · rintro _ ⟨⟩
    · rintro _ ⟨⟩
      exact keysOnce_member? hmembers hv

theorem readList_ok {items : List α} {v : Value}
    (h : readList read v = .ok items) :
    ∃ values, v = .array values ∧ values.mapM read = .ok items := by
  cases v with
  | array values => exact ⟨values, rfl, h⟩
  | null | bool | number | string | object => cases h

end

/-- What holds of all results of a walk, in terms of what was walked. -/
theorem forall_mem_of_mapM {ε α β : Type} {f : α → Except ε β} {P : β → Prop}
    {Q : α → Prop} {l : List α} {results : List β}
    (hPQ : ∀ a ∈ l, ∀ b, f a = .ok b → (P b ↔ Q a))
    (h : l.mapM f = .ok results) :
    (∀ b ∈ results, P b) ↔ ∀ a ∈ l, Q a := by
  induction l generalizing results with
  | nil =>
      obtain rfl : [] = results := Except.ok.inj h
      simp
  | cons a l ih =>
      rw [List.mapM_cons] at h
      obtain ⟨b, hb, h⟩ := ok_of_bind h
      obtain ⟨more, hmore, h⟩ := ok_of_bind h
      obtain rfl : b :: more = results := Except.ok.inj h
      rw [List.forall_mem_cons, List.forall_mem_cons,
        hPQ a List.mem_cons_self b hb,
        ih (fun a ha => hPQ a (List.mem_cons_of_mem _ ha)) hmore]

section

variable {α : Type} {name : String} {write : α → Value} {o : Option α}

theorem map_fst_writtenIf :
    ((writtenIf name write o).map Prod.fst).Sublist [name] := by
  cases o with
  | none => exact List.nil_sublist _
  | some a => exact List.Sublist.refl _

theorem keysOnce_writtenIf (h : ∀ a ∈ o, (write a).KeysOnce) :
    ∀ m ∈ writtenIf name write o, m.2.KeysOnce := by
  cases o with
  | none => exact List.forall_mem_nil _
  | some a => exact List.forall_mem_singleton.mpr (h a rfl)

theorem keysOnce_orNull (h : ∀ a ∈ o, (write a).KeysOnce) :
    (orNull write o).KeysOnce := by
  cases o with
  | none => exact Value.keysOnce_null
  | some a => exact h a rfl

end

end Ridership.Json

namespace Ridership.Forecast

open Json (Value Reader)

/-! ## What a record was read from -/

theorem StationId.read_ok {v : Value} {id : StationId}
    (h : StationId.read v = .ok id) : id.toValue = v := by
  unfold StationId.read at h
  split at h
  · split at h
    · obtain rfl := Except.ok.inj h
      rfl
    · cases h
  · obtain rfl := Except.ok.inj h
    rfl
  · cases h

section

variable {v : Value}

theorem Station.of_read {s : Station} (h : Station.read v = .ok s) :
    ∃ members, v = .object members ∧
      Json.member? "id" members = some s.id.toValue ∧
      StationId.read s.id.toValue = .ok s.id ∧
      Json.optionalField "name" none (Json.readNullable Json.readText) members
        = .ok s.name ∧
      s.extra = Json.otherMembers ["id", "name"] members := by
  cases v with
  | null | bool | number | string | array => cases h
  | object members =>
  obtain ⟨_, _, h⟩ := Json.ok_of_bind h
  obtain ⟨id, hid, h⟩ := Json.ok_of_bind h
  obtain ⟨name, hname, h⟩ := Json.ok_of_bind h
  obtain rfl := Except.ok.inj h
  obtain ⟨v, hv, hid⟩ := Json.requiredField_ok hid
  obtain rfl := StationId.read_ok hid
  exact ⟨members, rfl, hv, hid, hname, rfl⟩

theorem Trip.of_read {t : Trip} (h : Trip.read v = .ok t) :
    ∃ members, v = .object members ∧
      Json.optionalField "train_nr" none Json.readAny members
        = .ok t.trainNumber ∧
      t.extra = Json.otherMembers ["train_nr"] members := by
  cases v with
  | null | bool | number | string | array => cases h
  | object members =>
  obtain ⟨number, hnumber, h⟩ := Json.ok_of_bind h
  obtain rfl := Except.ok.inj h
  exact ⟨members, rfl, hnumber, rfl⟩

theorem ServiceInfo.of_read {s : ServiceInfo} (h : ServiceInfo.read v = .ok s) :
    ∃ members, v = .object members ∧
      Json.optionalField "name" none Json.readAny members = .ok s.name ∧
      Json.optionalField "train_nr" none Json.readAny members
        = .ok s.trainNumber ∧
      Json.optionalField "line" none Json.readAny members = .ok s.line ∧
      s.extra = Json.otherMembers ["name", "train_nr", "line"] members := by
  cases v with
  | null | bool | number | string | array => cases h
  | object members =>
  obtain ⟨name, hname, h⟩ := Json.ok_of_bind h
  obtain ⟨number, hnumber, h⟩ := Json.ok_of_bind h
  obtain ⟨line, hline, h⟩ := Json.ok_of_bind h
  obtain rfl := Except.ok.inj h
  exact ⟨members, rfl, hname, hnumber, hline, rfl⟩

theorem RawEdge.of_read {e : RawEdge} (h : RawEdge.read v = .ok e) :
    ∃ members origin target, v = .object members ∧
      Json.member? "from" members = some origin ∧
      Station.read origin = .ok e.origin ∧
      Json.member? "to" members = some target ∧
      Station.read target = .ok e.target ∧
      Json.optionalField "capacity" none Json.readAny members
        = .ok e.capacity ∧
      Json.optionalField "passenger_cdf" [] (Json.readList CdfEntry.read) members
        = .ok e.cdf ∧
      e.extra = Json.otherMembers ["from", "to", "capacity", "passenger_cdf"]
        members := by
  cases v with
  | null | bool | number | string | array => cases h
  | object members =>
  obtain ⟨_, _, h⟩ := Json.ok_of_bind h
  obtain ⟨origin, horigin, h⟩ := Json.ok_of_bind h
  obtain ⟨target, htarget, h⟩ := Json.ok_of_bind h
  obtain ⟨capacity, hcapacity, h⟩ := Json.ok_of_bind h
  obtain ⟨cdf, hcdf, h⟩ := Json.ok_of_bind h
  obtain rfl := Except.ok.inj h
  obtain ⟨v, hv, horigin⟩ := Json.requiredField_ok horigin
  obtain ⟨w, hw, htarget⟩ := Json.requiredField_ok htarget
  exact ⟨members, v, w, rfl, hv, horigin, hw, htarget, hcapacity, hcdf, rfl⟩

end

/-! ## What is written for a record -/

theorem StationId.keysOnce_toValue (id : StationId) : id.toValue.KeysOnce := by
  cases id with
  | number n => exact Value.keysOnce_number _
  | text s => exact Value.keysOnce_string s

theorem CdfEntry.keysOnce_toValue (entry : CdfEntry) :
    entry.toValue.KeysOnce := by
  refine Value.keysOnce_object.mpr ⟨?_, ?_⟩
  · show ["passengers", "probability"].Nodup
    decide
  · simp [writeCount, writeFloat]

theorem EdgeSummary.keysOnce_members (s : EdgeSummary) :
    ∀ m ∈ s.members, m.2.KeysOnce := by
  simp [EdgeSummary.members, writeCount, writeFloat]

section

variable {v : Value} (hv : v.KeysOnce)

include hv

theorem Station.keysOnce_toValue {s : Station} (h : Station.read v = .ok s) :
    s.toValue.KeysOnce := by
  obtain ⟨members, rfl, -, -, -, hextra⟩ := Station.of_read h
  rw [Station.toValue, hextra]
  refine @Json.keysOnce_record ["id", "name"] _ _ (by decide) ?_ ?_ hv
  · rw [List.map_append]
    exact (List.Sublist.refl _).append Json.map_fst_writtenIf
  · refine List.forall_mem_append.mpr ⟨?_, ?_⟩
    · exact List.forall_mem_singleton.mpr s.id.keysOnce_toValue
    · exact Json.keysOnce_writtenIf fun _ _ => Value.keysOnce_string _

theorem Trip.keysOnce_toValue {t : Trip} (h : Trip.read v = .ok t) :
    t.toValue.KeysOnce := by
  obtain ⟨members, rfl, hnumber, hextra⟩ := Trip.of_read h
  rw [Trip.toValue, hextra]
  refine @Json.keysOnce_record ["train_nr"] _ _ (by decide)
    Json.map_fst_writtenIf ?_ hv
  exact Json.keysOnce_writtenIf (Json.keysOnce_anyField hv hnumber)

theorem ServiceInfo.keysOnce_toValue {s : ServiceInfo}
    (h : ServiceInfo.read v = .ok s) : s.toValue.KeysOnce := by
  obtain ⟨members, rfl, hname, hnumber, hline, hextra⟩ := ServiceInfo.of_read h
  rw [ServiceInfo.toValue, hextra]
  refine @Json.keysOnce_record ["name", "train_nr", "line"] _ _ (by decide)
    ?_ ?_ hv
  · rw [List.map_append]
    exact (List.Sublist.refl _).append Json.map_fst_writtenIf
  · have hkept {o : Option Value} (ho : ∀ v ∈ o, v.KeysOnce) :
        (Json.orNull id o).KeysOnce := Json.keysOnce_orNull ho
    refine List.forall_mem_append.mpr ⟨?_, ?_⟩
    · exact List.forall_mem_cons.mpr
        ⟨hkept (Json.keysOnce_anyField hv hname), List.forall_mem_singleton.mpr
          (hkept (Json.keysOnce_anyField hv hnumber))⟩
    · exact Json.keysOnce_writtenIf (Json.keysOnce_anyField hv hline)

/-! ## Edges -/

/-- What an edge is written from, its summary apart. -/
theorem RawEdge.fields_of_read {e : RawEdge} (h : RawEdge.read v = .ok e) :
    ∃ members, v = .object members ∧ e.origin.toValue.KeysOnce ∧
      e.target.toValue.KeysOnce ∧ (∀ c ∈ e.capacity, c.KeysOnce) ∧
      e.extra = Json.otherMembers
        ["from", "to", "capacity", "passenger_cdf"] members := by
  obtain ⟨members, _, _, rfl, hv₁, horigin, hv₂, htarget, hcapacity, -,
    hextra⟩ := RawEdge.of_read h
  exact ⟨members, rfl,
    Station.keysOnce_toValue (Json.keysOnce_member? hv hv₁) horigin,
    Station.keysOnce_toValue (Json.keysOnce_member? hv hv₂) htarget,
    Json.keysOnce_anyField hv hcapacity, hextra⟩

end

end Ridership.Forecast

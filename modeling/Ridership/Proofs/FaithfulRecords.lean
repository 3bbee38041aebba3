import Ridership.Proofs.ForecastKeys
import Ridership.Proofs.LineTexts

/-!
# A record that was read is written as it came

A record knows some of the fields of its object and keeps all others. When
it is written, those it knows come first and the others follow in their
order, so two things have to be seen of each record: that a field it knows
is written with the value it was read from, and that nothing it writes as
its own is mistaken for one of the others when it is read again.

Not everything is as it was. A field that was null is left out, or written
as null though it had been missing; an edge is written with a distribution
though it came without; and an entry of a distribution is always written as
an object.
-/

namespace Ridership.Json

/-! ## Objects written anew -/

/-- What an object keeps of another one when it is written for it: some fields
are known, a few of them may be added, and `alike` says for each what has to
become of its value. -/
structure Faithful (fields added : List String)
    (alike : String → Value → Value → Prop)
    (members written : List (String × Value)) : Prop where
  /-- Behind the fields stand all other members, as and in the
  order they were. -/
  others : ∃ own, (own.map Prod.fst).Sublist fields ∧
    written = own ++ members.filter fun m => m.1 ∉ fields
  keys : ∀ key ∈ written.map Prod.fst, key ∈ members.map Prod.fst ∨ key ∈ added
  kept : ∀ key ∈ fields, ∀ v, member? key members = some v → v ≠ .null →
    ∃ w, member? key written = some w ∧ alike key v w

/-- Both values are objects, and the one is written for the other. -/
def Rewritten (fields added : List String)
    (alike : String → Value → Value → Prop) (v w : Value) : Prop :=
  ∃ members written, v = .object members ∧ w = .object written ∧
    Faithful fields added alike members written

/-- Nothing but the value itself will do. -/
def unchanged (_ : String) (v w : Value) : Prop :=
  w = v

section

variable {names : List String} {own members : List (String × Value)}
  {key : String}

theorem member?_append (a b : List (String × Value)) :
    member? key (a ++ b) = (member? key a).or (member? key b) := by
  rw [member?, List.find?_append, Option.map_or]
  rfl

theorem mem_keys_of_member? {v : Value} (h : member? key members = some v) :
    key ∈ members.map Prod.fst :=
  List.mem_map.mpr ⟨_, mem_of_member? h, rfl⟩

theorem member?_record (hkey : key ∈ names) :
    member? key (own ++ otherMembers names members) = member? key own := by
  rw [member?_append, member?_eq_none (not_mem_otherMembers hkey),
    Option.or_none]

theorem otherMembers_record (hown : (own.map Prod.fst).Sublist names) :
    otherMembers names (own ++ otherMembers names members)
      = otherMembers names members := by
  have hnone : otherMembers names own = [] := by
    rw [otherMembers, List.filter_eq_nil_iff]
    intro m hm
    have hname := hown.subset (List.mem_map_of_mem hm)
    simpa using hname
  have htwice : otherMembers names (otherMembers names members)
      = otherMembers names members := by
    rw [otherMembers, otherMembers, List.filter_filter]
    simp only [Bool.and_self]
  rw [otherMembers, List.filter_append]
  show otherMembers names own ++ otherMembers names _ = _
  rw [hnone, htwice, List.nil_append]

theorem otherMembers_eq_filter :
    otherMembers names members = members.filter fun m => m.1 ∉ names := by
  rw [otherMembers]
  congr
  funext m
  simp

/-- What a record writes is faithful if its own fields are. -/
theorem Faithful.of_own {added : List String}
    {alike : String → Value → Value → Prop}
    (hown : (own.map Prod.fst).Sublist names)
    (hkeys : ∀ key ∈ own.map Prod.fst,
      key ∈ members.map Prod.fst ∨ key ∈ added)
    (hkept : ∀ key ∈ names, ∀ v, member? key members = some v → v ≠ .null →
      ∃ w, member? key own = some w ∧ alike key v w) :
    Faithful names added alike members (own ++ otherMembers names members) where
  others := ⟨own, hown, by rw [otherMembers_eq_filter]⟩
  keys := by
    intro key hkey
    rw [List.map_append, List.mem_append] at hkey
    rcases hkey with hkey | hkey
    · exact hkeys key hkey
    · exact .inl (otherMembers_sublist.subset hkey)
  kept := by
    intro key hkey v hv hnull
    rw [member?_record hkey]
    exact hkept key hkey v hv hnull

theorem checkFields_ok {check : String → Value → Except DecodeFault Unit}
    (h : ∀ m ∈ members, check m.1 m.2 = .ok ()) :
    checkFields check members = .ok () := by
  induction members with
  | nil => rfl
  | cons m members ih =>
      show (do check m.1 m.2; checkFields check members) = _
      rw [h m List.mem_cons_self]
      exact ih fun m hm => h m (List.mem_cons_of_mem _ hm)

theorem checkFields_record {check : String → Value → Except DecodeFault Unit}
    (hown : ∀ m ∈ own, check m.1 m.2 = .ok ())
    (hothers : ∀ key, key ∉ names → ∀ v, check key v = .ok ()) :
    checkFields check (own ++ otherMembers names members) = .ok () := by
  refine checkFields_ok (List.forall_mem_append.mpr ⟨hown, fun m hm => ?_⟩)
  exact hothers m.1 (fun hkey =>
    not_mem_otherMembers hkey (List.mem_map_of_mem hm)) m.2

theorem reads_ok {α : Type} {read : Reader α} {v : Value} {a : α}
    (h : read v = .ok a) : reads read v = .ok () := by
  rw [reads, h]
  rfl

theorem requiredField_record {α : Type} {read : Reader α} {v : Value}
    (hkey : key ∈ names) (hown : member? key own = some v) :
    requiredField key read (own ++ otherMembers names members) = read v := by
  rw [requiredField, member?_record hkey, hown]

end

/-! ## Fields that may be null -/

/-- What is read of a value other than null is written as that value. -/
structure Keeps {α : Type} (read : Reader (Option α)) (write : α → Value) :
    Prop where
  null : ∀ o, read .null = .ok o → o = none
  value : ∀ v o, v ≠ .null → read v = .ok o → o.map write = some v

theorem keeps_any : Keeps readAny id where
  null := fun _ h => (Except.ok.inj h).symm
  value := by
    intro v o hnull h
    unfold readAny at h
    split at h
    · exact absurd rfl hnull
    · obtain rfl := Except.ok.inj h
      rfl

theorem keeps_text : Keeps (readNullable readText) Value.string where
  null := fun _ h => (Except.ok.inj h).symm
  value := by
    intro v o hnull h
    cases v with
    | null => exact absurd rfl hnull
    | string s =>
        obtain rfl := Except.ok.inj h
        rfl
    | bool | number | array | object => cases h

section

variable {α : Type} {name : String} {read : Reader (Option α)}
  {write : α → Value} {members : List (String × Value)} {o : Option α}
  (hkeeps : Keeps read write)
  (h : optionalField name none read members = .ok o)

include hkeeps h

/-- What was read is written as the value that it was read from. -/
theorem Keeps.of_some {a : α} (ha : o = some a) :
    Json.member? name members = some (write a) ∧ read (write a) = .ok o := by
  rcases optionalField_ok h with rfl | ⟨v, hv, hread⟩
  · cases ha
  · have hnull : v ≠ .null := by
      rintro rfl
      cases (hkeeps.null o hread).symm.trans ha
    have hvalue := hkeeps.value v o hnull hread
    rw [ha, Option.map_some] at hvalue
    obtain rfl := Option.some.inj hvalue
    exact ⟨hv, hread⟩

theorem Keeps.map_eq {v : Value} (hv : Json.member? name members = some v)
    (hnull : v ≠ .null) : o.map write = some v := by
  rw [optionalField, hv] at h
  exact hkeeps.value v o hnull h

theorem Keeps.mem_keys :
    ∀ key ∈ (writtenIf name write o).map Prod.fst,
      key ∈ members.map Prod.fst := by
  cases ho : o with
  | none => exact List.forall_mem_nil _
  | some a =>
      refine List.forall_mem_singleton.mpr ?_
      exact mem_keys_of_member? (hkeeps.of_some h ho).1

/-- The field is read again if it is among those that are written, and if it is
not one of the others. -/
theorem Keeps.read_again {names : List String} {own : List (String × Value)}
    (hname : name ∈ names) (hown : Json.member? name own = o.map write) :
    optionalField name none read (own ++ otherMembers names members)
      = .ok o := by
  rw [optionalField, member?_record hname, hown]
  cases ho : o with
  | none => rfl
  | some a =>
      have hread := (hkeeps.of_some h ho).2
      rwa [ho] at hread

theorem Keeps.read_orNull (hnull : read .null = .ok none) :
    read (orNull write o) = .ok o := by
  cases ho : o with
  | none => exact hnull
  | some a =>
      have hread := (hkeeps.of_some h ho).2
      rwa [ho] at hread

end

section

variable {α : Type} {name key : String} {write : α → Value} {o : Option α}

theorem orNull_of_map {v : Value} (h : o.map write = some v) :
    orNull write o = v := by
  cases o with
  | none => cases h
  | some a => exact Option.some.inj h

theorem member?_writtenIf :
    Json.member? name (writtenIf name write o) = o.map write := by
  cases o with
  | none => rfl
  | some a => rw [writtenIf, member?_cons, if_pos rfl, Option.map_some]

theorem member?_writtenIf_ne (h : name ≠ key) :
    Json.member? key (writtenIf name write o) = none := by
  cases o with
  | none => rfl
  | some a => rw [writtenIf, member?_cons, if_neg h]; rfl

end

end Ridership.Json

namespace Ridership.Forecast

open Json (Value Rewritten Faithful unchanged member? otherMembers writtenIf
  member?_cons member?_append member?_writtenIf member?_writtenIf_ne)

/-! ## Trips -/

theorem Trip.faithful {v : Value} {t : Trip} (h : Trip.read v = .ok t) :
    Trip.read t.toValue = .ok t ∧
      Rewritten ["train_nr"] [] unchanged v t.toValue := by
  obtain ⟨members, rfl, hnumber, hextra⟩ := Trip.of_read h
  have hown : ((writtenIf "train_nr" id t.trainNumber).map Prod.fst).Sublist
      ["train_nr"] := Json.map_fst_writtenIf
  rw [Trip.toValue, hextra]
  constructor
  · have hagain := Json.keeps_any.read_again hnumber (List.mem_singleton.mpr rfl)
      member?_writtenIf
    rw [Trip.read, hagain, Json.otherMembers_record hown, ← hextra]
    rfl
  · refine ⟨members, _, rfl, rfl, .of_own hown ?_ ?_⟩
    · exact fun key hkey => .inl (Json.keeps_any.mem_keys hnumber key hkey)
    · intro key hkey v hv hnull
      obtain rfl := List.mem_singleton.mp hkey
      exact ⟨v, member?_writtenIf.trans
        (Json.keeps_any.map_eq hnumber hv hnull), rfl⟩

/-! ## Stations -/

theorem Station.check_other {key : String} (hkey : key ∉ ["id", "name"])
    (v : Value) : Station.check key v = .ok () := by
  simp at hkey
  unfold Station.check
  split
  · exact absurd rfl hkey.1
  · exact absurd rfl hkey.2
  · rfl

/-- The fields of a station itself, as they are written. -/
def Station.ownMembers (s : Station) : List (String × Value) :=
  [("id", s.id.toValue)] ++ writtenIf "name" Value.string s.name

theorem Station.map_fst_ownMembers (s : Station) :
    (s.ownMembers.map Prod.fst).Sublist ["id", "name"] := by
  rw [ownMembers, List.map_append]
  exact (List.Sublist.refl _).append Json.map_fst_writtenIf

theorem Station.member?_id (s : Station) :
    member? "id" s.ownMembers = some s.id.toValue := by
  rw [ownMembers, List.singleton_append, member?_cons, if_pos rfl]

theorem Station.member?_name (s : Station) :
    member? "name" s.ownMembers = s.name.map Value.string := by
  rw [ownMembers, List.singleton_append, member?_cons,
    if_neg (show "id" ≠ "name" by decide), member?_writtenIf]

theorem Station.faithful {v : Value} {s : Station} (h : Station.read v = .ok s) :
    Station.read s.toValue = .ok s ∧
      Rewritten ["id", "name"] [] unchanged v s.toValue := by
  obtain ⟨members, rfl, hmember, hid, hname, hextra⟩ := Station.of_read h
  have hvalue : s.toValue
      = .object (s.ownMembers ++ otherMembers ["id", "name"] members) := by
    rw [← hextra]
    rfl
  rw [hvalue]
  constructor
  · have hcheck : Json.checkFields Station.check
        (s.ownMembers ++ otherMembers ["id", "name"] members) = .ok () := by
      refine Json.checkFields_record ?_ fun _ hkey => Station.check_other hkey
      refine List.forall_mem_append.mpr ⟨?_, ?_⟩
      · exact List.forall_mem_singleton.mpr (Json.reads_ok hid)
      · cases s.name with
        | none => exact List.forall_mem_nil _
        | some name => exact List.forall_mem_singleton.mpr rfl
    rw [Station.read, hcheck]
    dsimp only [bind, Except.bind]
    rw [Json.requiredField_record (by decide) (s.member?_id),
      Json.keeps_text.read_again hname (by decide) s.member?_name,
      Json.otherMembers_record s.map_fst_ownMembers, ← hextra, hid]
    rfl
  · refine ⟨members, _, rfl, rfl, .of_own s.map_fst_ownMembers ?_ ?_⟩
    · intro key hkey
      rw [ownMembers, List.map_append, List.mem_append] at hkey
      rcases hkey with hkey | hkey
      · obtain rfl := List.mem_singleton.mp hkey
        exact .inl (Json.mem_keys_of_member? hmember)
      · exact .inl (Json.keeps_text.mem_keys hname key hkey)
    · intro key hkey v hv hnull
      rcases List.mem_cons.mp hkey with rfl | hkey
      · exact ⟨v, s.member?_id.trans (hmember.symm.trans hv), rfl⟩
      · obtain rfl := List.mem_singleton.mp hkey
        exact ⟨v, s.member?_name.trans (Json.keeps_text.map_eq hname hv hnull),
          rfl⟩

/-! ## Services -/

/-- The fields of a service itself, as they are written. -/
def ServiceInfo.ownMembers (s : ServiceInfo) : List (String × Value) :=
  [("name", Json.orNull id s.name), ("train_nr", Json.orNull id s.trainNumber)]
    ++ writtenIf "line" id s.line

theorem ServiceInfo.map_fst_ownMembers (s : ServiceInfo) :
    (s.ownMembers.map Prod.fst).Sublist ["name", "train_nr", "line"] := by
  rw [ownMembers, List.map_append]
  exact (List.Sublist.refl _).append Json.map_fst_writtenIf

theorem ServiceInfo.member?_name (s : ServiceInfo) :
    member? "name" s.ownMembers = some (Json.orNull id s.name) := by
  rw [ownMembers, List.cons_append, member?_cons, if_pos rfl]

theorem ServiceInfo.member?_trainNumber (s : ServiceInfo) :
    member? "train_nr" s.ownMembers = some (Json.orNull id s.trainNumber) := by
  rw [ownMembers, List.cons_append, member?_cons,
    if_neg (show "name" ≠ "train_nr" by decide), List.singleton_append,
    member?_cons, if_pos rfl]

theorem ServiceInfo.member?_line (s : ServiceInfo) :
    member? "line" s.ownMembers = s.line.map id := by
  rw [ownMembers, List.cons_append, member?_cons,
    if_neg (show "name" ≠ "line" by decide), List.singleton_append,
    member?_cons, if_neg (show "train_nr" ≠ "line" by decide),
    member?_writtenIf]

theorem ServiceInfo.faithful {v : Value} {s : ServiceInfo}
    (h : ServiceInfo.read v = .ok s) :
    ServiceInfo.read s.toValue = .ok s ∧
      Rewritten ["name", "train_nr", "line"] ["name", "train_nr"] unchanged v
        s.toValue := by
  obtain ⟨members, rfl, hname, hnumber, hline, hextra⟩ := ServiceInfo.of_read h
  have hvalue : s.toValue = .object
      (s.ownMembers ++ otherMembers ["name", "train_nr", "line"] members) := by
    rw [← hextra]
    rfl
  rw [hvalue]
  constructor
  · have hagain {name : String} {o : Option Value}
        (ho : Json.optionalField name none Json.readAny members = .ok o)
        (hmem : name ∈ ["name", "train_nr", "line"])
        (hown : member? name s.ownMembers = some (Json.orNull id o)) :
        Json.optionalField name none Json.readAny
          (s.ownMembers ++ otherMembers ["name", "train_nr", "line"] members)
            = .ok o := by
      rw [Json.optionalField, Json.member?_record hmem, hown]
      exact Json.keeps_any.read_orNull ho rfl
    rw [ServiceInfo.read, hagain hname (by decide) s.member?_name]
    dsimp only [bind, Except.bind]
    rw [hagain hnumber (by decide) s.member?_trainNumber]
    dsimp only
    rw [Json.keeps_any.read_again hline (by decide) s.member?_line]
    dsimp only
    rw [Json.otherMembers_record s.map_fst_ownMembers, ← hextra]
    rfl
  · refine ⟨members, _, rfl, rfl, .of_own s.map_fst_ownMembers ?_ ?_⟩
    · intro key hkey
      rw [ownMembers, List.map_append, List.mem_append] at hkey
      exact hkey.symm.imp (Json.keeps_any.mem_keys hline key) id
    · have hkept {name : String} {o : Option Value}
          (ho : Json.optionalField name none Json.readAny members = .ok o)
          (hown : member? name s.ownMembers = some (Json.orNull id o)) {v : Value}
          (hv : member? name members = some v) (hnull : v ≠ .null) :
          ∃ w, member? name s.ownMembers = some w ∧ w = v :=
        ⟨_, hown, Json.orNull_of_map (Json.keeps_any.map_eq ho hv hnull)⟩
      intro key hkey v hv hnull
      rcases List.mem_cons.mp hkey with rfl | hkey
      · exact hkept hname s.member?_name hv hnull
      rcases List.mem_cons.mp hkey with rfl | hkey
      · exact hkept hnumber s.member?_trainNumber hv hnull
      · obtain rfl := List.mem_singleton.mp hkey
        exact ⟨v, s.member?_line.trans (Json.keeps_any.map_eq hline hv hnull),
          rfl⟩

/-! ## Edges -/

/-- The two numbers of an entry, which is an object of both or an
array of them. -/
inductive CdfEntry.Says : Value → Int → Json.Number → Prop
  | object {members : List (String × Value)} {count : Int}
      {share : Json.Number} :
      member? "passengers" members = some (.number (.whole count)) →
      member? "probability" members = some (.number share) →
      Says (.object members) count share
  | array {count : Int} {share : Json.Number} :
      Says (.array [.number (.whole count), .number share]) count share

/-- An entry written for another one says the same; its probability is
binary64. -/
def CdfEntry.Rewritten (v w : Value) : Prop :=
  ∃ count share, CdfEntry.Says v count share ∧
    w = .object [("passengers", .number (.whole count)),
      ("probability", .number (.float share.toFloat))]

/-- What becomes of the fields of an edge. -/
def RawEdge.alike (key : String) (v w : Value) : Prop :=
  if key = "from" ∨ key = "to" then Rewritten ["id", "name"] [] unchanged v w
  else if key = "passenger_cdf" then
    ∃ entries written, v = .array entries ∧ w = .array written ∧
      List.Forall₂ CdfEntry.Rewritten entries written
  else w = v

theorem readNatural32_ok {v : Value} {n : UInt32}
    (h : Json.readNatural32 v = .ok n) : v = .number (.whole n.toNat) := by
  unfold Json.readNatural32 at h
  split at h
  · split at h
    · next n hn =>
        obtain rfl := Except.ok.inj h
        have h32 : widthSize 32 = 2 ^ 32 := rfl
        rw [fitsUnsigned, Bool.and_eq_true, decide_eq_true_eq,
          decide_eq_true_eq, h32] at hn
        have hback : ((UInt32.ofNat n.toNat).toNat : Int) = n := by
          rw [UInt32.toNat_ofNat']
          omega
        rw [hback]
    · cases h
  · cases h

theorem readBinary64_ok {v : Value} {x : Float}
    (h : Json.readBinary64 v = .ok x) :
    ∃ share : Json.Number, v = .number share ∧ x = share.toFloat := by
  unfold Json.readBinary64 at h
  split at h
  · exact ⟨_, rfl, (Except.ok.inj h).symm⟩
  · cases h

theorem CdfEntry.rewritten_of_read {v : Value} {entry : CdfEntry}
    (h : CdfEntry.read v = .ok entry) : CdfEntry.Rewritten v entry.toValue := by
  unfold CdfEntry.read at h
  split at h
  · obtain ⟨_, _, h⟩ := Json.ok_of_bind h
    obtain ⟨count, hcount, h⟩ := Json.ok_of_bind h
    obtain ⟨share, hshare, h⟩ := Json.ok_of_bind h
    obtain rfl := Except.ok.inj h
    obtain ⟨v, hv, hcount⟩ := Json.requiredField_ok hcount
    obtain ⟨w, hw, hshare⟩ := Json.requiredField_ok hshare
    obtain rfl := readNatural32_ok hcount
    obtain ⟨share, rfl, rfl⟩ := readBinary64_ok hshare
    exact ⟨_, share, .object hv hw, rfl⟩
  · cases h
  · obtain ⟨count, hcount, h⟩ := Json.ok_of_bind h
    split at h
    · cases h
    · obtain ⟨share, hshare, h⟩ := Json.ok_of_bind h
      split at h
      · next hend =>
          obtain rfl := Except.ok.inj h
          obtain rfl := List.isEmpty_iff.mp hend
          obtain rfl := readNatural32_ok hcount
          obtain ⟨share, rfl, rfl⟩ := readBinary64_ok hshare
          exact ⟨_, share, .array, rfl⟩
      · cases h
  · cases h

theorem readNatural32_writeCount (n : UInt32) :
    Json.readNatural32 (writeCount n) = .ok n := by
  have hfits : fitsUnsigned 32 n.toNat = true := by
    have h32 : widthSize 32 = 2 ^ 32 := rfl
    have hn := n.toNat_lt
    rw [fitsUnsigned, Bool.and_eq_true, decide_eq_true_eq, decide_eq_true_eq,
      h32]
    omega
  rw [writeCount, Json.readNatural32, if_pos hfits, Int.toNat_natCast,
    UInt32.ofNat_toNat]

theorem CdfEntry.read_object {v w : Value} {entry : CdfEntry}
    (hv : Json.readNatural32 v = .ok entry.passengers)
    (hw : Json.readBinary64 w = .ok entry.probability) :
    CdfEntry.read (.object [("passengers", v), ("probability", w)])
      = .ok entry := by
  have hcheck : Json.checkFields CdfEntry.check
      [("passengers", v), ("probability", w)] = .ok () := by
    refine Json.checkFields_ok (List.forall_mem_cons.mpr ⟨?_, ?_⟩)
    · exact Json.reads_ok hv
    · exact List.forall_mem_singleton.mpr (Json.reads_ok hw)
  rw [CdfEntry.read, hcheck]
  dsimp only [bind, Except.bind]
  rw [Json.requiredField, member?_cons, if_pos rfl]
  dsimp only
  rw [hv, Json.requiredField, member?_cons,
    if_neg (show "passengers" ≠ "probability" by decide), member?_cons,
    if_pos rfl]
  dsimp only
  rw [hw]
  rfl

theorem CdfEntry.read_toValue (entry : CdfEntry) :
    CdfEntry.read entry.toValue = .ok entry :=
  CdfEntry.read_object (readNatural32_writeCount entry.passengers) rfl

theorem CdfEntry.readList_toValue (cdf : List CdfEntry) :
    Json.readList CdfEntry.read (.array (cdf.map CdfEntry.toValue))
      = .ok cdf := by
  rw [Json.readList]
  induction cdf with
  | nil => rfl
  | cons entry cdf ih =>
      rw [List.map_cons, List.mapM_cons, entry.read_toValue, ih]
      rfl

theorem CdfEntry.rewritten_of_mapM {values : List Value} {cdf : List CdfEntry}
    (h : values.mapM CdfEntry.read = .ok cdf) :
    List.Forall₂ CdfEntry.Rewritten values (cdf.map CdfEntry.toValue) := by
  induction values generalizing cdf with
  | nil =>
      obtain rfl : [] = cdf := Except.ok.inj h
      exact .nil
  | cons v values ih =>
      rw [List.mapM_cons] at h
      obtain ⟨entry, hentry, h⟩ := Json.ok_of_bind h
      obtain ⟨more, hmore, h⟩ := Json.ok_of_bind h
      obtain rfl : entry :: more = cdf := Except.ok.inj h
      exact .cons (CdfEntry.rewritten_of_read hentry) (ih hmore)

theorem RawEdge.check_other {key : String}
    (hkey : key ∉ ["from", "to", "capacity", "passenger_cdf"]) (v : Value) :
    RawEdge.check key v = .ok () := by
  simp at hkey
  unfold RawEdge.check
  split
  · exact absurd rfl hkey.1
  · exact absurd rfl hkey.2.1
  · exact absurd rfl hkey.2.2.2
  · rfl

section

variable (e : RawEdge)

theorem RawEdge.member?_from :
    member? "from" e.ownMembers = some e.origin.toValue := by
  rw [ownMembers, List.append_assoc, List.cons_append, member?_cons, if_pos rfl]

theorem RawEdge.member?_to :
    member? "to" e.ownMembers = some e.target.toValue := by
  rw [ownMembers, List.append_assoc, List.cons_append, member?_cons,
    if_neg (show "from" ≠ "to" by decide), List.cons_append, member?_cons,
    if_pos rfl]

theorem RawEdge.member?_behind {key : String} (hfrom : "from" ≠ key)
    (hto : "to" ≠ key) : member? key e.ownMembers
      = (member? key (writtenIf "capacity" id e.capacity)).or
          (member? key [("passenger_cdf",
            .array (e.cdf.map CdfEntry.toValue))]) := by
  rw [ownMembers, List.append_assoc, List.cons_append, member?_cons,
    if_neg hfrom, List.singleton_append, member?_cons, if_neg hto,
    member?_append]

theorem RawEdge.member?_capacity :
    member? "capacity" e.ownMembers = e.capacity.map id := by
  rw [e.member?_behind (by decide) (by decide), member?_writtenIf, member?_cons,
    if_neg (show "passenger_cdf" ≠ "capacity" by decide)]
  exact Option.or_none

theorem RawEdge.member?_cdf : member? "passenger_cdf" e.ownMembers
    = some (.array (e.cdf.map CdfEntry.toValue)) := by
  rw [e.member?_behind (by decide) (by decide),
    member?_writtenIf_ne (by decide), member?_cons, if_pos rfl, Option.none_or]

end

section

variable {e : RawEdge} {members : List (String × Value)}
  (horigin : Station.read e.origin.toValue = .ok e.origin)
  (htarget : Station.read e.target.toValue = .ok e.target)

include horigin htarget

theorem RawEdge.checkFields_record :
    Json.checkFields RawEdge.check (e.ownMembers ++ otherMembers
      ["from", "to", "capacity", "passenger_cdf"] members) = .ok () := by
  refine Json.checkFields_record ?_ fun _ hkey => RawEdge.check_other hkey
  refine List.forall_mem_append.mpr ⟨List.forall_mem_append.mpr ⟨?_, ?_⟩, ?_⟩
  · exact List.forall_mem_cons.mpr ⟨Json.reads_ok horigin,
      List.forall_mem_singleton.mpr (Json.reads_ok htarget)⟩
  · cases e.capacity with
    | none => exact List.forall_mem_nil _
    | some capacity => exact List.forall_mem_singleton.mpr rfl
  · exact List.forall_mem_singleton.mpr
      (Json.reads_ok (CdfEntry.readList_toValue e.cdf))

/-- An edge is read from the fields that are written for it, whatever else comes
with them. -/
theorem RawEdge.read_record
    (hcapacity : Json.optionalField "capacity" none Json.readAny members
      = .ok e.capacity)
    (hextra : e.extra
      = otherMembers ["from", "to", "capacity", "passenger_cdf"] members) :
    RawEdge.read (.object (e.ownMembers ++ otherMembers
      ["from", "to", "capacity", "passenger_cdf"] members)) = .ok e := by
  rw [RawEdge.read, RawEdge.checkFields_record horigin htarget]
  dsimp only [bind, Except.bind]
  rw [Json.requiredField_record (by decide) e.member?_from, horigin]
  dsimp only
  rw [Json.requiredField_record (by decide) e.member?_to, htarget]
  dsimp only
  rw [Json.keeps_any.read_again hcapacity (by decide) e.member?_capacity]
  dsimp only
  rw [Json.optionalField, Json.member?_record (by decide), e.member?_cdf]
  dsimp only
  rw [CdfEntry.readList_toValue]
  dsimp only
  rw [Json.otherMembers_record e.map_fst_ownMembers, ← hextra]
  rfl

end

theorem RawEdge.faithful {v : Value} {e : RawEdge} (h : RawEdge.read v = .ok e) :
    RawEdge.read (Edge.unsummarized e).toValue = .ok e ∧
      Rewritten ["from", "to", "capacity", "passenger_cdf"] ["passenger_cdf"]
        RawEdge.alike v (Edge.unsummarized e).toValue := by
  obtain ⟨members, origin, target, rfl, hfrom, horigin, hto, htarget, hcapacity,
    hcdf, hextra⟩ := RawEdge.of_read h
  obtain ⟨horiginAgain, horiginKept⟩ := Station.faithful horigin
  obtain ⟨htargetAgain, htargetKept⟩ := Station.faithful htarget
  have hvalue : (Edge.unsummarized e).toValue
      = .object (e.ownMembers ++ otherMembers
          ["from", "to", "capacity", "passenger_cdf"] members) := by
    show Edge.toValue { Edge.unsummarized e with summary := none } = _
    rw [Edge.toValue_eq, Option.map_none, Option.getD_none, List.append_nil,
      hextra]
  rw [hvalue]
  constructor
  · exact RawEdge.read_record horiginAgain htargetAgain hcapacity hextra
  · refine ⟨members, _, rfl, rfl, .of_own e.map_fst_ownMembers ?_ ?_⟩
    · intro key hkey
      rw [ownMembers, List.map_append, List.map_append, List.mem_append,
        List.mem_append] at hkey
      rcases hkey with (hkey | hkey) | hkey
      · rcases List.mem_cons.mp hkey with rfl | hkey
        · exact .inl (Json.mem_keys_of_member? hfrom)
        · obtain rfl := List.mem_singleton.mp hkey
          exact .inl (Json.mem_keys_of_member? hto)
      · exact .inl (Json.keeps_any.mem_keys hcapacity key hkey)
      · exact .inr hkey
    · intro key hkey v hv hnull
      rcases List.mem_cons.mp hkey with rfl | hkey
      · refine ⟨_, e.member?_from, ?_⟩
        obtain rfl := Option.some.inj (hfrom.symm.trans hv)
        rwa [alike, if_pos (.inl rfl)]
      rcases List.mem_cons.mp hkey with rfl | hkey
      · refine ⟨_, e.member?_to, ?_⟩
        obtain rfl := Option.some.inj (hto.symm.trans hv)
        rwa [alike, if_pos (.inr rfl)]
      rcases List.mem_cons.mp hkey with rfl | hkey
      · refine ⟨v, e.member?_capacity.trans
          (Json.keeps_any.map_eq hcapacity hv hnull), ?_⟩
        rw [alike, if_neg (by decide), if_neg (by decide)]
      · obtain rfl := List.mem_singleton.mp hkey
        refine ⟨_, e.member?_cdf, ?_⟩
        rw [Json.optionalField, hv] at hcdf
        obtain ⟨entries, rfl, hentries⟩ := Json.readList_ok hcdf
        rw [alike, if_neg (by decide), if_pos rfl]
        exact ⟨entries, _, rfl, rfl, CdfEntry.rewritten_of_mapM hentries⟩

/-! ## All of them -/

/-- A record that was read is read again from what is written for it, and so is
a line from its text. What is written keeps whatever came. -/
theorem records_faithful :
    (∀ v t, Trip.read v = .ok t → Trip.read t.toValue = .ok t ∧
      Rewritten ["train_nr"] [] unchanged v t.toValue) ∧
    (∀ v s, Station.read v = .ok s → Station.read s.toValue = .ok s ∧
      Rewritten ["id", "name"] [] unchanged v s.toValue) ∧
    (∀ v s, ServiceInfo.read v = .ok s → ServiceInfo.read s.toValue = .ok s ∧
      Rewritten ["name", "train_nr", "line"] ["name", "train_nr"] unchanged v
        s.toValue) ∧
    (∀ v e, RawEdge.read v = .ok e →
      RawEdge.read (Edge.unsummarized e).toValue = .ok e ∧
      Rewritten ["from", "to", "capacity", "passenger_cdf"] ["passenger_cdf"]
        RawEdge.alike v (Edge.unsummarized e).toValue) ∧
    (∀ text line, Log.Line.ofText text = .ok line →
      Log.Line.ofText (Text.Utf8.encode line.toValue.text) = .ok line) :=
  ⟨fun _ _ => Trip.faithful, fun _ _ => Station.faithful,
    fun _ _ => ServiceInfo.faithful, fun _ _ => RawEdge.faithful,
    fun _ _ h => (Log.Line.fits_of_ofText h).ofText_text⟩

/-- An edge without a distribution; its stations and it have fields
of their own. -/
def bareEdge : Value :=
  .object
    [("delay", .number (.whole 3)),
      ("from", .object [("track", .string "4a"), ("id", .number (.whole 1)),
        ("name", .null)]),
      ("to", .object [("id", .string "X"), ("name", .string "Ulm")]),
      ("via", .array [.null, .object []]), ("capacity", .null)]

/-- The edge gets a distribution, and its capacity is left out. A line that was
given as an array is told as an object. -/
theorem records_faithful_of_bareEdge :
    (∃ e, RawEdge.read bareEdge = .ok e ∧
      RawEdge.read (Edge.unsummarized e).toValue = .ok e ∧
      Rewritten ["from", "to", "capacity", "passenger_cdf"] ["passenger_cdf"]
        RawEdge.alike bareEdge (Edge.unsummarized e).toValue) ∧
    Log.Line.ofText (Text.Utf8.encode "[5, 9, 5, -1]")
      = .ok ⟨5, 9, 5, some (-1)⟩ ∧
    Log.Line.ofText (Text.Utf8.encode
      (Log.Line.toValue ⟨5, 9, 5, some (-1)⟩).text)
        = .ok ⟨5, 9, 5, some (-1)⟩ := by
  obtain ⟨-, -, -, hedge, hline⟩ := records_faithful
  have hread : RawEdge.read bareEdge = .ok
      { origin := ⟨.number 1, none, [("track", .string "4a")]⟩
        target := ⟨.text "X", some "Ulm", []⟩
        capacity := none, cdf := []
        extra := [("delay", .number (.whole 3)),
          ("via", .array [.null, .object []])] } := rfl
  have htext : Log.Line.ofText (Text.Utf8.encode "[5, 9, 5, -1]")
      = .ok ⟨5, 9, 5, some (-1)⟩ := by decide +kernel
  exact ⟨⟨_, hread, hedge _ _ hread⟩, htext, hline _ _ htext⟩

end Ridership.Forecast

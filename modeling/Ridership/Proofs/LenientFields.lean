import Ridership.Proofs.FaithfulRecords

/-!
# What becomes of a field that may be anything

The train number of a trip or a service, the name of a service and the
capacity of an edge may be any value, and they are meant to be passed on as
they were written. But what is read of such a field is one thing for a field
that is null and for one that is missing, so whoever writes the record has
to take the one for the other.

Trips and edges leave the field out, and a null that came is lost. Services
write null, and a field that did not come is made up. In all other cases the
field is passed on, with the value that came: so each of the two rules fails
for just one of the three ways in which a field may come
(`unlessNull_eq_iff`, `some_getD_null_iff`), and a sum of the edge changes
nothing about that.
-/

namespace Ridership.Json

/-! ## Fields of an object -/

/-- The value of a field of an object. What is no object has no fields. -/
def Value.field? (key : String) : Value → Option Value
  | .object members => member? key members
  | _ => none

/-- A field is passed on: both have it or neither has, and with one value. -/
def PassedOn (key : String) (v w : Value) : Prop :=
  w.field? key = v.field? key

/-- A field, but for one that is null. -/
def unlessNull : Option Value → Option Value
  | some .null => none
  | field => field

theorem unlessNull_of_ne {field : Option Value} (h : field ≠ some .null) :
    unlessNull field = field := by
  unfold unlessNull
  split
  · exact absurd rfl h
  · rfl

theorem unlessNull_eq_iff {field : Option Value} :
    unlessNull field = field ↔ field ≠ some .null := by
  constructor
  · intro h hnull
    rw [hnull, unlessNull] at h
    cases h
  · exact unlessNull_of_ne

theorem some_getD_null_iff {field : Option Value} :
    some (field.getD .null) = field ↔ field ≠ none := by
  cases field with
  | none => simp
  | some v => simp

/-- What is written for a field, if it is written as null when it is missing. -/
theorem orNull_unlessNull (field : Option Value) :
    orNull id (unlessNull field) = field.getD .null := by
  rcases field with _ | v
  · rfl
  · cases v <;> rfl

section

variable {name : String} {members : List (String × Value)}

/-- Null and nothing read as the same. -/
theorem optionalField_any {kept : Option Value}
    (h : optionalField name none readAny members = .ok kept) :
    kept = unlessNull (member? name members) := by
  rw [optionalField] at h
  split at h
  · next v hv =>
      rw [hv]
      unfold readAny at h
      split at h
      · exact (Except.ok.inj h).symm
      · next hnull =>
          have hsome : some v ≠ some .null := by simpa using hnull
          rw [unlessNull_of_ne hsome]
          exact (Except.ok.inj h).symm
  · next hnone =>
      rw [hnone]
      exact (Except.ok.inj h).symm

end

/-! ## The two rules -/

/-- A field that is passed on unless it is null, and is then left out. -/
structure LeavesOutNull (key : String) (v w : Value) : Prop where
  field_eq : w.field? key = unlessNull (v.field? key)
  passedOn_iff : PassedOn key v w ↔ v.field? key ≠ some .null

/-- A field that is passed on unless it is missing, and is then made up. -/
structure MakesUpNull (key : String) (v w : Value) : Prop where
  field_eq : w.field? key = some ((v.field? key).getD .null)
  passedOn_iff : PassedOn key v w ↔ v.field? key ≠ none

section

variable {key : String} {v w : Value}

theorem LeavesOutNull.of_eq (h : w.field? key = unlessNull (v.field? key)) :
    LeavesOutNull key v w := by
  refine ⟨h, ?_⟩
  rw [PassedOn, h]
  exact unlessNull_eq_iff

theorem MakesUpNull.of_eq
    (h : w.field? key = some ((v.field? key).getD .null)) :
    MakesUpNull key v w := by
  refine ⟨h, ?_⟩
  rw [PassedOn, h]
  exact some_getD_null_iff

end

end Ridership.Json

namespace Ridership.Forecast

open Json (Value LeavesOutNull MakesUpNull PassedOn member? member?_append
  member?_eq_none member?_record optionalField_any)

/-! ## Records -/

theorem Trip.leavesOutNull {v : Value} {t : Trip} (h : Trip.read v = .ok t) :
    LeavesOutNull "train_nr" v t.toValue := by
  obtain ⟨members, rfl, hnumber, hextra⟩ := Trip.of_read h
  refine .of_eq ?_
  show member? "train_nr" (Json.writtenIf "train_nr" id t.trainNumber ++ t.extra)
    = Json.unlessNull (member? "train_nr" members)
  rw [hextra, member?_record (List.mem_singleton.mpr rfl),
    Json.member?_writtenIf, optionalField_any hnumber, Option.map_id_fun, id]

theorem ServiceInfo.makesUpNull {v : Value} {s : ServiceInfo}
    (h : ServiceInfo.read v = .ok s) {key : String}
    (hkey : key ∈ ["name", "train_nr"]) : MakesUpNull key v s.toValue := by
  obtain ⟨members, rfl, hname, hnumber, -, hextra⟩ := ServiceInfo.of_read h
  have hfield : ∀ {key : String} {kept : Option Value},
      key ∈ ["name", "train_nr", "line"] →
      Json.optionalField key none Json.readAny members = .ok kept →
      member? key s.ownMembers = some (Json.orNull id kept) →
      MakesUpNull key (.object members) s.toValue := by
    intro key kept hmem hkept hown
    refine .of_eq ?_
    show member? key (s.ownMembers ++ s.extra)
      = some ((member? key members).getD .null)
    rw [hextra, member?_record hmem, hown, optionalField_any hkept,
      Json.orNull_unlessNull]
  rcases List.mem_cons.mp hkey with rfl | hkey
  · exact hfield (by decide) hname s.member?_name
  · obtain rfl := List.mem_singleton.mp hkey
    exact hfield (by decide) hnumber s.member?_trainNumber

/-- No computed field is the capacity. -/
theorem EdgeSummary.member?_capacity (summary : Option EdgeSummary) :
    member? "capacity" ((summary.map EdgeSummary.members).getD []) = none := by
  cases summary with
  | none => rfl
  | some s =>
      refine member?_eq_none ?_
      show "capacity" ∉ EdgeSummary.fields
      decide

theorem Edge.leavesOutNull {v : Value} {e : RawEdge} (h : RawEdge.read v = .ok e)
    (summary : Option EdgeSummary) :
    LeavesOutNull "capacity" v
      (Edge.toValue { Edge.unsummarized e with summary }) := by
  obtain ⟨members, _, _, rfl, -, -, -, -, hcapacity, -, hextra⟩ :=
    RawEdge.of_read h
  have hother : member? "capacity" e.extra = none := by
    rw [hextra]
    exact member?_eq_none (Json.not_mem_otherMembers (by decide))
  refine .of_eq ?_
  rw [Edge.toValue_eq]
  show member? "capacity"
      (e.ownMembers ++ (summary.map EdgeSummary.members).getD [] ++ e.extra)
    = Json.unlessNull (member? "capacity" members)
  rw [member?_append, member?_append, hother, EdgeSummary.member?_capacity,
    Option.or_none, Option.or_none, e.member?_capacity,
    optionalField_any hcapacity, Option.map_id_fun, id]

/-- Fields that may be anything are passed on as they came, with two
exceptions. A trip and an edge leave out a train number or a capacity that is
null, be the edge summed up or not; and a service has its name and its train
number written as null when they did not come. -/
theorem lenient_fields (v : Value) :
    (∀ t, Trip.read v = .ok t → LeavesOutNull "train_nr" v t.toValue) ∧
    (∀ s, ServiceInfo.read v = .ok s →
      MakesUpNull "name" v s.toValue ∧ MakesUpNull "train_nr" v s.toValue) ∧
    (∀ e, RawEdge.read v = .ok e →
      LeavesOutNull "capacity" v (Edge.unsummarized e).toValue ∧
      ∀ edge, Edge.summarize e = .ok edge →
        LeavesOutNull "capacity" v edge.toValue) := by
  refine ⟨fun _ => Trip.leavesOutNull, ?_, ?_⟩
  · intro s h
    exact ⟨ServiceInfo.makesUpNull h (by decide),
      ServiceInfo.makesUpNull h (by decide)⟩
  · intro e h
    refine ⟨Edge.leavesOutNull h none, fun edge hedge => ?_⟩
    obtain ⟨summary, rfl, -⟩ := Edge.summarize_ok hedge
    exact Edge.leavesOutNull h summary

/-- A trip whose train number came as null. -/
def nullTrip : Value :=
  .object [("train_nr", .null), ("time", .number (.whole 5))]

/-- A service that came without a name. -/
def namelessService : Value :=
  .object [("train_nr", .null), ("line", .string "S1")]

/-- An edge whose capacity is a text. -/
def textEdge : Value :=
  .object [("from", .object [("id", .number (.whole 1))]),
    ("capacity", .string "none"), ("to", .object [("id", .string "X")])]

/-- The null of the trip is lost, that of the service is passed on, and so is a
capacity that says nothing. -/
theorem lenient_fields_of_three :
    (∃ t, Trip.read nullTrip = .ok t ∧
      t.toValue.field? "train_nr" = none) ∧
    (∃ s, ServiceInfo.read namelessService = .ok s ∧
      PassedOn "train_nr" namelessService s.toValue ∧
      s.toValue.field? "name" = some .null) ∧
    (∃ e edge, RawEdge.read textEdge = .ok e ∧ Edge.summarize e = .ok edge ∧
      PassedOn "capacity" textEdge edge.toValue) := by
  obtain ⟨htrip, -, -⟩ := lenient_fields nullTrip
  obtain ⟨-, hservice, -⟩ := lenient_fields namelessService
  obtain ⟨-, -, hedge⟩ := lenient_fields textEdge
  have hread : Trip.read nullTrip
      = .ok ⟨none, [("time", .number (.whole 5))]⟩ := rfl
  have hread' : ServiceInfo.read namelessService
      = .ok ⟨none, none, some (.string "S1"), []⟩ := rfl
  have hread'' : RawEdge.read textEdge = .ok
      ⟨⟨.number 1, none, []⟩, ⟨.text "X", none, []⟩, some (.string "none"), [],
        []⟩ := rfl
  have hsum : Edge.summarize
      ⟨⟨.number 1, none, []⟩, ⟨.text "X", none, []⟩, some (.string "none"), [],
        []⟩ = .ok (Edge.unsummarized _) := rfl
  refine ⟨⟨_, hread, ?_⟩, ⟨_, hread', ?_, ?_⟩, ⟨_, _, hread'', hsum, ?_⟩⟩
  · exact (htrip _ hread).field_eq
  · exact (hservice _ hread').2.passedOn_iff.mpr nofun
  · exact (hservice _ hread').1.field_eq
  · exact ((hedge _ hread'').2 _ hsum).passedOn_iff.mpr nofun

/-- A train number that came as null is not passed on, nor is a name that did
not come, nor a capacity that came as null. -/
theorem lenient_fields_changed :
    (∃ t, Trip.read (.object [("train_nr", .null)]) = .ok t ∧
      ¬ PassedOn "train_nr" (.object [("train_nr", .null)]) t.toValue) ∧
    (∃ s, ServiceInfo.read (.object []) = .ok s ∧
      ¬ PassedOn "name" (.object []) s.toValue) ∧
    (∃ e, RawEdge.read bareEdge = .ok e ∧
      ¬ PassedOn "capacity" bareEdge (Edge.unsummarized e).toValue) := by
  refine ⟨⟨_, rfl, ?_⟩, ⟨_, rfl, ?_⟩, ⟨_, rfl, ?_⟩⟩
  · exact fun h => nomatch (show none = some Value.null from h)
  · exact fun h => nomatch (show some Value.null = none from h)
  · exact fun h => nomatch (show none = some Value.null from h)

end Ridership.Forecast

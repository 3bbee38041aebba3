import Ridership.Proofs.RecordKeys
import Ridership.Session.Notification

/-!
# When a forecast repeats a key

What is computed for an edge is written among the fields that came with it,
and nothing keeps the two apart. So an edge that has a usable capacity, and
came with a field that is named like one of the computed ones, is written
with that key twice: once with the value that was computed, once with the
one that came. This is the only way for a key to be repeated, in a forecast
as well as in the notification that tells it.
-/

namespace Ridership.Forecast

open Json (Value Tree Unambiguous)

/-- The names of the fields that are computed for an edge. -/
def EdgeSummary.fields : List String :=
  ["p_load_gt_100", "q_5", "q_20", "q_50", "q_80", "q_95", "min_pax", "max_pax"]

theorem EdgeSummary.map_fst_members (s : EdgeSummary) :
    s.members.map Prod.fst = EdgeSummary.fields :=
  rfl

/-- Fields are computed for the edge, and it came with one of their names. -/
def RawEdge.Clashes (e : RawEdge) : Prop :=
  (usableCapacity e.capacity).isSome ∧ ∃ m ∈ e.extra, m.1 ∈ EdgeSummary.fields

instance (e : RawEdge) : Decidable e.Clashes :=
  inferInstanceAs (Decidable (_ ∧ ∃ m ∈ e.extra, _))

/-! ## Edges -/

/-- The fields of an edge itself, as they are written. -/
def RawEdge.ownMembers (e : RawEdge) : List (String × Value) :=
  [("from", e.origin.toValue), ("to", e.target.toValue)]
    ++ Json.writtenIf "capacity" id e.capacity
    ++ [("passenger_cdf", .array (e.cdf.map CdfEntry.toValue))]

theorem RawEdge.map_fst_ownMembers (e : RawEdge) :
    (e.ownMembers.map Prod.fst).Sublist
      ["from", "to", "capacity", "passenger_cdf"] := by
  rw [ownMembers, List.map_append, List.map_append]
  exact ((List.Sublist.refl _).append Json.map_fst_writtenIf).append
    (List.Sublist.refl _)

theorem RawEdge.keysOnce_ownMembers {v : Value} (hv : v.KeysOnce) {e : RawEdge}
    (h : RawEdge.read v = .ok e) : ∀ m ∈ e.ownMembers, m.2.KeysOnce := by
  obtain ⟨_, _, horigin, htarget, hcapacity, _⟩ := RawEdge.fields_of_read hv h
  have hcdf : (Value.array (e.cdf.map CdfEntry.toValue)).KeysOnce := by
    rw [Value.keysOnce_array, List.forall_mem_map]
    exact fun entry _ => entry.keysOnce_toValue
  refine List.forall_mem_append.mpr ⟨List.forall_mem_append.mpr ⟨?_, ?_⟩, ?_⟩
  · exact List.forall_mem_cons.mpr
      ⟨horigin, List.forall_mem_singleton.mpr htarget⟩
  · exact Json.keysOnce_writtenIf hcapacity
  · exact List.forall_mem_singleton.mpr hcdf

/-- A usable capacity is what decides whether an edge is summed up. -/
theorem Edge.summarize_ok {e : RawEdge} {edge : Edge}
    (h : Edge.summarize e = .ok edge) : ∃ summary,
    edge = { Edge.unsummarized e with summary } ∧
    summary.isSome = (usableCapacity e.capacity).isSome := by
  rw [Edge.summarize] at h
  split at h
  · next hcapacity =>
      obtain rfl := Except.ok.inj h
      exact ⟨none, rfl, by rw [hcapacity]; rfl⟩
  · next hcapacity =>
      obtain ⟨summary, _, h⟩ := Json.ok_of_bind h
      obtain rfl := Except.ok.inj h
      exact ⟨some summary, rfl, by rw [hcapacity]; rfl⟩

theorem Edge.toValue_eq (e : RawEdge) (summary : Option EdgeSummary) :
    Edge.toValue { Edge.unsummarized e with summary }
      = .object (e.ownMembers ++ (summary.map EdgeSummary.members).getD []
          ++ e.extra) :=
  rfl

section

variable {e : RawEdge} {members : List (String × Value)}
  (hextra : e.extra = Json.otherMembers
    ["from", "to", "capacity", "passenger_cdf"] members)
  (hmembers : (Value.object members).KeysOnce)

include hextra hmembers

/-- The computed fields are none of the edge's own, but any field that came with
the edge may be one of them. -/
theorem RawEdge.nodup_summed_iff (s : EdgeSummary) :
    ((e.ownMembers ++ s.members ++ e.extra).map Prod.fst).Nodup
      ↔ ¬ ∃ m ∈ e.extra, m.1 ∈ EdgeSummary.fields := by
  have hown := e.map_fst_ownMembers
  have hwritten : ((e.ownMembers ++ s.members).map Prod.fst).Nodup := by
    rw [List.map_append, s.map_fst_members]
    refine (hown.append (List.Sublist.refl EdgeSummary.fields)).nodup ?_
    decide
  have hbrought : (e.extra.map Prod.fst).Nodup := by
    rw [hextra]
    exact Json.otherMembers_sublist.nodup (Value.keysOnce_object.mp hmembers).1
  rw [List.map_append, List.nodup_append]
  constructor
  · rintro ⟨-, -, hdisjoint⟩ ⟨m, hm, hfield⟩
    refine hdisjoint m.1 ?_ m.1 (List.mem_map_of_mem hm) rfl
    rw [List.map_append, s.map_fst_members]
    exact List.mem_append_right _ hfield
  · intro hclash
    refine ⟨hwritten, hbrought, ?_⟩
    rintro key hkey _ hother rfl
    rw [List.map_append, s.map_fst_members] at hkey
    rcases List.mem_append.mp hkey with hkey | hkey
    · rw [hextra] at hother
      exact Json.not_mem_otherMembers (hown.subset hkey) hother
    · obtain ⟨m, hm, rfl⟩ := List.mem_map.mp hother
      exact hclash ⟨m, hm, hkey⟩

theorem RawEdge.keysOnce_extra : ∀ m ∈ e.extra, m.2.KeysOnce := by
  rw [hextra]
  exact fun m hm =>
    (Value.keysOnce_object.mp hmembers).2 m (List.mem_filter.mp hm).1

end

/-- An edge repeats a key just if a field that came with it clashes. -/
theorem Edge.keysOnce_iff {v : Value} (hv : v.KeysOnce) {e : RawEdge}
    (hread : RawEdge.read v = .ok e) {edge : Edge}
    (h : Edge.summarize e = .ok edge) :
    edge.toValue.KeysOnce ↔ ¬ e.Clashes := by
  have hown := RawEdge.keysOnce_ownMembers hv hread
  obtain ⟨members, rfl, -, -, -, hextra⟩ := RawEdge.fields_of_read hv hread
  obtain ⟨summary, rfl, hsummary⟩ := Edge.summarize_ok h
  rw [Edge.toValue_eq, RawEdge.Clashes, ← hsummary]
  cases summary with
  | none =>
      refine iff_of_true ?_ (fun hclash => absurd hclash.1 (by decide))
      rw [hextra, Option.map_none, Option.getD_none, List.append_nil]
      exact Json.keysOnce_record (by decide) e.map_fst_ownMembers hown hv
  | some s =>
      have hvalues : ∀ m ∈ e.ownMembers ++ s.members ++ e.extra,
          m.2.KeysOnce :=
        List.forall_mem_append.mpr
          ⟨List.forall_mem_append.mpr ⟨hown, s.keysOnce_members⟩,
            RawEdge.keysOnce_extra hextra hv⟩
      rw [Option.map_some, Option.getD_some, Value.keysOnce_object,
        RawEdge.nodup_summed_iff hextra hv, Option.isSome_some]
      simp only [true_and]
      exact and_iff_left hvalues

/-! ## Forecasts -/

/-- Every part of what is known about a line's trips was read from a text. -/
structure TripContext.Decoded (c : TripContext) : Prop where
  primary : ∀ s ∈ c.primaryStation, ∃ t : Tree, Station.read t.toValue = .ok s
  secondary : ∀ s ∈ c.secondaryStation,
    ∃ t : Tree, Station.read t.toValue = .ok s
  services : ∀ infos ∈ c.serviceInfos,
    ∃ t : Tree, Json.readList ServiceInfo.read t.toValue = .ok infos

namespace TripContext.Decoded

variable {c : TripContext} (h : c.Decoded)

include h

theorem keysOnce_primary :
    (Json.orNull Station.toValue c.primaryStation).KeysOnce := by
  refine Json.keysOnce_orNull fun s hs => ?_
  obtain ⟨t, ht⟩ := h.primary s hs
  exact Station.keysOnce_toValue t.toValue_keysOnce ht

theorem keysOnce_secondary :
    (Json.orNull Station.toValue c.secondaryStation).KeysOnce := by
  refine Json.keysOnce_orNull fun s hs => ?_
  obtain ⟨t, ht⟩ := h.secondary s hs
  exact Station.keysOnce_toValue t.toValue_keysOnce ht

theorem keysOnce_services :
    (Json.orNull (fun infos => .array (infos.map ServiceInfo.toValue))
      c.serviceInfos).KeysOnce := by
  refine Json.keysOnce_orNull fun infos hinfos => ?_
  obtain ⟨t, ht⟩ := h.services infos hinfos
  obtain ⟨values, hvalues, hread⟩ := Json.readList_ok ht
  have hitems : ∀ v ∈ values, v.KeysOnce :=
    Value.keysOnce_array.mp (hvalues ▸ t.toValue_keysOnce)
  rw [Value.keysOnce_array, List.forall_mem_map]
  refine (Json.forall_mem_of_mapM (fun v hv info hinfo => ?_) hread).mpr
    (fun v _ => trivial)
  exact iff_true_intro (ServiceInfo.keysOnce_toValue (hitems v hv) hinfo)

end TripContext.Decoded

/-- The names of the fields of a forecast. -/
def TripForecast.fields : List String :=
  ["trip", "edges", "allEdgesHaveCapacity", "maxCapacity", "maxPax", "maxLoad",
    "maxSpread", "primaryStation", "secondaryStation", "serviceInfos",
    "tripDisplayName", "systemTime"]

theorem TripForecast.map_fst_members (f : TripForecast) :
    (f.members.map Prod.fst).Sublist TripForecast.fields := by
  rw [members, List.map_append]
  exact (List.Sublist.refl _).append Json.map_fst_writtenIf

section

variable {tripTree edgesTree : Tree} {trip : Trip} {raw : List RawEdge}
  {context : TripContext} {f : TripForecast}
  (htrip : Trip.read tripTree.toValue = .ok trip)
  (hraw : Json.readList RawEdge.read edgesTree.toValue = .ok raw)
  (hcontext : context.Decoded)
  (hf : TripForecast.assemble trip raw context = .ok f)

include hraw hf

theorem TripForecast.keysOnce_edges_iff :
    (Value.array (f.edges.map Edge.toValue)).KeysOnce
      ↔ ∀ e ∈ raw, e.isSelfLoop = false → ¬ e.Clashes := by
  obtain ⟨values, hvalues, hread⟩ := Json.readList_ok hraw
  have hitems : ∀ v ∈ values, v.KeysOnce :=
    Value.keysOnce_array.mp (hvalues ▸ edgesTree.toValue_keysOnce)
  have hsource : ∀ e ∈ raw, ∃ v : Value, v.KeysOnce ∧
      RawEdge.read v = .ok e := by
    refine (Json.forall_mem_of_mapM (fun v hv e he => ?_) hread).mpr
      (fun v _ => trivial)
    exact iff_true_intro ⟨v, hitems v hv, he⟩
  obtain ⟨edges, hedges, hf⟩ := Json.ok_of_bind hf
  obtain rfl := Except.ok.inj hf
  have hwalk := Json.forall_mem_of_mapM (fun e he edge hedge => by
    obtain ⟨v, hv, hread⟩ := hsource e (List.mem_filter.mp he).1
    exact Edge.keysOnce_iff hv hread hedge) hedges
  rw [Value.keysOnce_array, List.forall_mem_map, hwalk]
  simp [List.mem_filter]

include htrip hcontext

/-- With some fields in front, as with none, the edges alone decide. -/
theorem TripForecast.keysOnce_behind_iff {front : List (String × Value)}
    (hfront : (front.map Prod.fst).Sublist ["op", "line"])
    (hvalues : ∀ m ∈ front, m.2.KeysOnce) :
    (Value.object (front ++ f.members)).KeysOnce
      ↔ ∀ e ∈ raw, e.isSelfLoop = false → ¬ e.Clashes := by
  have hedges := TripForecast.keysOnce_edges_iff hraw hf
  obtain ⟨edges, _, hf⟩ := Json.ok_of_bind hf
  have htripOnce := Trip.keysOnce_toValue tripTree.toValue_keysOnce htrip
  have hkeys : ((front ++ f.members).map Prod.fst).Nodup := by
    rw [List.map_append]
    refine (hfront.append f.map_fst_members).nodup ?_
    decide
  rw [← hedges, Value.keysOnce_object, List.forall_mem_append,
    and_iff_right hkeys, and_iff_right hvalues]
  obtain rfl := Except.ok.inj hf
  simp [TripForecast.members, htripOnce, hcontext.keysOnce_primary,
    hcontext.keysOnce_secondary, hcontext.keysOnce_services, writeFloat,
    Json.writtenIf]

end

theorem keysOnce_line (line : Log.Line) : line.toValue.KeysOnce := by
  refine Value.keysOnce_object.mpr ⟨?_, ?_⟩
  · rw [List.map_append]
    refine ((List.Sublist.refl _).append Json.map_fst_writtenIf).nodup ?_
    show ["begin", "end", "length", "systemTime"].Nodup
    decide
  · refine List.forall_mem_append.mpr ⟨by simp, ?_⟩
    exact Json.keysOnce_writtenIf fun _ _ => Value.keysOnce_number _

/-- A forecast is written without a repeated key just if no edge that is part of
it clashes, and so is the notification that tells it. -/
theorem TripForecast.unambiguous_iff {tripTree edgesTree : Tree} {trip : Trip}
    {raw : List RawEdge} {context : TripContext} {f : TripForecast}
    (htrip : Trip.read tripTree.toValue = .ok trip)
    (hraw : Json.readList RawEdge.read edgesTree.toValue = .ok raw)
    (hcontext : context.Decoded)
    (hf : TripForecast.assemble trip raw context = .ok f) (line : Log.Line) :
    (Unambiguous f.toValue.text
      ↔ ∀ e ∈ raw, e.isSelfLoop = false → ¬ e.Clashes) ∧
    (Unambiguous (Session.Notification.tripForecast line f).toValue.text
      ↔ ∀ e ∈ raw, e.isSelfLoop = false → ¬ e.Clashes) := by
  have hbehind := @keysOnce_behind_iff _ _ _ _ _ _ htrip hraw hcontext hf
  rw [Json.unambiguous_text, Json.unambiguous_text]
  constructor
  · exact @hbehind [] (List.nil_sublist _) (List.forall_mem_nil _)
  · refine @hbehind [("op", .string "tripForecast"), ("line", line.toValue)]
      (List.Sublist.refl _) ?_
    exact List.forall_mem_cons.mpr ⟨Value.keysOnce_string _,
      List.forall_mem_singleton.mpr (keysOnce_line line)⟩

/-- One edge that has a capacity and came with one more field. -/
def edgesWith (field : String) : Tree :=
  .array [.object
    [("from", .object [("id", .number "1")]),
      ("to", .object [("id", .number "2")]),
      ("capacity", .number "100"),
      ("passenger_cdf", .array [.object
        [("passengers", .number "10"), ("probability", .number "1")]]),
      (field, .number "1")]]

/-- What is read of it. -/
def edgeWith (field : String) : RawEdge :=
  { origin := ⟨.number 1, none, []⟩, target := ⟨.number 2, none, []⟩
    capacity := some (.number (.whole 100)), cdf := [⟨10, Float.ofInt 1⟩]
    extra := [(field, .number (.whole 1))] }

theorem TripContext.empty_decoded : TripContext.empty.Decoded where
  primary := by rintro _ ⟨⟩
  secondary := by rintro _ ⟨⟩
  services := by rintro _ ⟨⟩

theorem exists_of_isOk {ε α : Type} {x : Except ε α} (h : x.isOk = true) :
    ∃ a, x = .ok a := by
  cases x with
  | error => cases h
  | ok a => exact ⟨a, rfl⟩

/-- A field of a name of its own repeats nothing. -/
theorem TripForecast.unambiguous_iff_of_delay :
    Trip.read (Tree.object []).toValue = .ok ⟨none, []⟩ ∧
    Json.readList RawEdge.read (edgesWith "delay").toValue
      = .ok [edgeWith "delay"] ∧
    ∃ f, TripForecast.assemble ⟨none, []⟩ [edgeWith "delay"] .empty = .ok f ∧
      Unambiguous f.toValue.text := by
  have hraw : Json.readList RawEdge.read (edgesWith "delay").toValue
      = .ok [edgeWith "delay"] := rfl
  have hok : (TripForecast.assemble ⟨none, []⟩ [edgeWith "delay"]
      .empty).isOk = true := by decide +kernel
  have hplain : ∀ e ∈ [edgeWith "delay"], e.isSelfLoop = false →
      ¬ e.Clashes := by decide +kernel
  obtain ⟨f, hf⟩ := exists_of_isOk hok
  have hiff := @TripForecast.unambiguous_iff (.object []) _ _ _ _ f rfl hraw
    TripContext.empty_decoded hf (Log.Line.between 0 0)
  exact ⟨rfl, hraw, f, hf, hiff.1.mpr hplain⟩

/-- The median of an edge is written twice if the edge came with one. -/
theorem TripForecast.ambiguous_of_median :
    ∃ f, Trip.read (Tree.object []).toValue = .ok ⟨none, []⟩ ∧
      Json.readList RawEdge.read (edgesWith "q_50").toValue
        = .ok [edgeWith "q_50"] ∧
      TripForecast.assemble ⟨none, []⟩ [edgeWith "q_50"] .empty = .ok f ∧
      ¬ Unambiguous f.toValue.text := by
  have hraw : Json.readList RawEdge.read (edgesWith "q_50").toValue
      = .ok [edgeWith "q_50"] := rfl
  have hok : (TripForecast.assemble ⟨none, []⟩ [edgeWith "q_50"]
      .empty).isOk = true := by decide +kernel
  have hclash : ¬ ∀ e ∈ [edgeWith "q_50"], e.isSelfLoop = false →
      ¬ e.Clashes := by decide +kernel
  obtain ⟨f, hf⟩ := exists_of_isOk hok
  have hiff := @keysOnce_behind_iff (.object []) _ _ _ _ f rfl hraw
    TripContext.empty_decoded hf [] (List.nil_sublist _)
      (List.forall_mem_nil _)
  refine ⟨f, rfl, hraw, hf, ?_⟩
  rw [Json.unambiguous_text]
  exact fun h => hclash (hiff.mp h)

end Ridership.Forecast

import Ridership.Forecast.TripForecast
import Ridership.Proofs.ForecastKeys
import Ridership.Proofs.QuantileOrder

/-!
# What a trip's edges amount to

A trip is refused for one edge: the first of its edges that count and whose
distribution falls short. Which level the error tells follows from the order of
the levels. They ascend, so a distribution that reaches the greatest reaches
them all, and the first one that is not reached is the least.

If there is no such edge, the aggregates are maxima over the edges that are
measured, those of them with a usable capacity. Being a maximum fixes a value
only if numbers that are not less than each other are the same. A zero with a
minus would stand in the way of that, but no capacity is a zero, and a share has
no sign. This is why the order of the edges does not matter: an aggregate is the
maximum of its values, however it is found (`PicksGreater`).
-/

namespace Ridership.Forecast

/-! ## Walks that may fail -/

section

variable {ε α β : Type} {f : α → Except ε β} {l : List α}

theorem mapM_ok_iff {results : List β} : l.mapM f = .ok results ↔
    List.Forall₂ (fun a b => f a = .ok b) l results := by
  induction l generalizing results with
  | nil => cases results <;> simp [pure, Except.pure]
  | cons a l ih =>
      rw [List.mapM_cons]
      constructor
      · intro h
        obtain ⟨b, hb, h⟩ := Json.ok_of_bind h
        obtain ⟨more, hmore, h⟩ := Json.ok_of_bind h
        obtain rfl : b :: more = results := Except.ok.inj h
        exact .cons hb (ih.mp hmore)
      · rintro (_ | ⟨hb, hmore⟩)
        rw [hb, ih.mpr hmore]
        rfl

theorem exists_mapM_iff :
    (∃ results, l.mapM f = .ok results) ↔ ∀ a ∈ l, ∃ b, f a = .ok b := by
  constructor
  · rintro ⟨results, h⟩
    refine (Json.forall_mem_of_mapM (P := fun _ => True) ?_ h).mp
      fun _ _ => trivial
    exact fun a _ b hb => iff_of_true trivial ⟨b, hb⟩
  · intro h
    induction l with
    | nil => exact ⟨[], rfl⟩
    | cons a l ih =>
        obtain ⟨⟨b, hb⟩, hmore⟩ := List.forall_mem_cons.mp h
        obtain ⟨results, hresults⟩ := ih hmore
        exact ⟨b :: results, by rw [List.mapM_cons, hb, hresults]; rfl⟩

/-- A walk fails at the first element that fails. -/
theorem mapM_error {error : ε} (h : l.mapM f = .error error) :
    ∃ front a back, l = front ++ a :: back ∧
      (∀ x ∈ front, ∃ b, f x = .ok b) ∧ f a = .error error := by
  induction l with
  | nil => cases h
  | cons a l ih =>
      rw [List.mapM_cons] at h
      cases ha : f a with
      | error cause =>
          rw [ha] at h
          obtain rfl : cause = error := Except.error.inj h
          exact ⟨[], a, l, rfl, List.forall_mem_nil _, ha⟩
      | ok b =>
          rw [ha] at h
          have hmore : l.mapM f = .error error := by
            cases hl : l.mapM f with
            | error cause =>
                rw [hl] at h
                rw [Except.error.inj h]
            | ok more =>
                rw [hl] at h
                cases h
          obtain ⟨front, x, back, rfl, hfront, hx⟩ := ih hmore
          exact ⟨a :: front, x, back, rfl,
            List.forall_mem_cons.mpr ⟨⟨b, ha⟩, hfront⟩, hx⟩

end

/-! ## Distributions that fall short -/

/-- The least of some levels that no entry of a distribution reaches. -/
structure LeastUnreached (cdf : List CdfEntry) (levels : List Float)
    (level : Float) : Prop where
  mem : level ∈ levels
  unreached : ¬ Reaches cdf level
  least : ∀ other ∈ levels, other < level → Reaches cdf other

/-- Asked for by ascending levels, quantiles fail at the least level that is not
reached. -/
theorem leastUnreached_of_mapM {cdf : List CdfEntry} {levels : List Float}
    (hlevels : levels.Pairwise (· ≤ ·)) {error : ForecastError}
    (h : levels.mapM (quantile cdf) = .error error) :
    ∃ level, LeastUnreached cdf levels level ∧ error = .invalidCdf level := by
  obtain ⟨front, level, back, rfl, hfront, hlevel⟩ := mapM_error h
  have hunreached : ¬ Reaches cdf level := by
    intro hreaches
    obtain ⟨x, hx⟩ := quantile_of_reaches hreaches
    rw [hx] at hlevel
    cases hlevel
  rw [quantile_of_not_reaches hunreached] at hlevel
  obtain ⟨-, hbehind, -⟩ := List.pairwise_append.mp hlevels
  refine ⟨level, ⟨by simp, hunreached, fun other hother hless => ?_⟩,
    (Except.error.inj hlevel).symm⟩
  rcases List.mem_append.mp hother with hfrom | hfrom
  · exact quantile_ok_iff.mp (hfront other hfrom)
  · rcases List.mem_cons.mp hfrom with rfl | hfrom
    · exact absurd hless Binary64.not_lt_self
    · have hle := (List.pairwise_cons.mp hbehind).1 other hfrom
      exact absurd hless (Binary64.not_lt_of_le hle)

theorem le_greatestLevel : ∀ level ∈ summaryLevels, level ≤ 0.95 := by
  decide +kernel

/-- Whoever reaches the greatest level reaches them all. -/
theorem exists_summary_iff (cdf : List CdfEntry) (capacity : Float) :
    (∃ s, EdgeSummary.ofCdf cdf capacity = .ok s) ↔ Reaches cdf 0.95 := by
  have hquantiles := EdgeSummary.ofCdf_quantiles cdf capacity
  have hall : (∃ s, EdgeSummary.ofCdf cdf capacity = .ok s) ↔
      ∃ quantiles, summaryLevels.mapM (quantile cdf) = .ok quantiles := by
    rw [← hquantiles]
    cases EdgeSummary.ofCdf cdf capacity <;> simp [Except.map]
  rw [hall, exists_mapM_iff]
  constructor
  · exact fun h => quantile_ok_iff.mp (h 0.95 (by simp [summaryLevels]))
  · exact fun h level hlevel =>
      quantile_of_reaches (h.of_le (le_greatestLevel level hlevel))

/-- The edge has a usable capacity, but none of its entries is as probable as
the greatest level asks for. -/
def RawEdge.FallsShort (e : RawEdge) : Prop :=
  (usableCapacity e.capacity).isSome ∧ ¬ Reaches e.cdf 0.95

theorem Edge.exists_summarize_iff (e : RawEdge) :
    (∃ edge, Edge.summarize e = .ok edge) ↔ ¬ e.FallsShort := by
  rw [summarize, RawEdge.FallsShort]
  cases usableCapacity e.capacity with
  | none => simp
  | some capacity =>
      rw [← exists_summary_iff e.cdf capacity]
      cases hsummary : EdgeSummary.ofCdf e.cdf capacity with
      | error => simp [hsummary, bind, Except.bind]
      | ok s => simp [hsummary, bind, Except.bind, pure, Except.pure]

theorem Edge.summarize_error {e : RawEdge} {error : ForecastError}
    (h : Edge.summarize e = .error error) :
    ∃ level, LeastUnreached e.cdf summaryLevels level ∧
      error = .invalidCdf level := by
  rw [summarize] at h
  split at h
  · cases h
  · next capacity _ =>
      have hquantiles := EdgeSummary.ofCdf_quantiles e.cdf capacity
      cases hsummary : EdgeSummary.ofCdf e.cdf capacity with
      | ok s =>
          rw [hsummary] at h
          cases h
      | error cause =>
          rw [hsummary] at h hquantiles
          obtain rfl : cause = error := Except.error.inj h
          exact leastUnreached_of_mapM summaryLevels_ascending hquantiles.symm

/-! ## Maxima -/

/-- The greatest of some values, or the given one if there are none. -/
def IsMaximum {α : Type} [LE α] (zero : α) (values : List α) (m : α) : Prop :=
  (∀ v ∈ values, v ≤ m) ∧ (m ∈ values ∨ values = [] ∧ m = zero)

/-- Of two of these values, the greater one is picked. None of them is less than
`zero`, and none has a double. -/
structure PicksGreater {α : Type} [LE α] (P : α → Prop) (zero : α)
    (pick : α → α → α) : Prop where
  trans : ∀ x y z : α, x ≤ y → y ≤ z → x ≤ z
  antisymm : ∀ x y, P x → P y → x ≤ y → y ≤ x → x = y
  holds : P zero
  zero_le : ∀ x, P x → zero ≤ x
  picks : ∀ x y, P x → P y → pick x y = x ∧ y ≤ x ∨ pick x y = y ∧ x ≤ y

namespace PicksGreater

variable {α : Type} [LE α] {P : α → Prop} {zero : α} {pick : α → α → α}
  (hpick : PicksGreater P zero pick)

include hpick

/-- Picking on and on from some value ends with the greatest. -/
theorem foldl_pick {values : List α} (hvalues : ∀ v ∈ values, P v) {x : α}
    (hx : P x) :
    P (values.foldl pick x) ∧ x ≤ values.foldl pick x ∧
    (∀ v ∈ values, v ≤ values.foldl pick x) ∧
    (values.foldl pick x = x ∨ values.foldl pick x ∈ values) := by
  induction values generalizing x with
  | nil =>
      have hrefl : x ≤ x := by
        rcases hpick.picks x x hx hx with ⟨-, h⟩ | ⟨-, h⟩ <;> exact h
      exact ⟨hx, hrefl, List.forall_mem_nil _, .inl rfl⟩
  | cons v values ih =>
      obtain ⟨hv, hmore⟩ := List.forall_mem_cons.mp hvalues
      rw [List.foldl_cons]
      rcases hpick.picks x v hx hv with ⟨hx', hle⟩ | ⟨hv', hle⟩
      · rw [hx']
        obtain ⟨hP, hfrom, hall, hmem⟩ := ih hmore hx
        exact ⟨hP, hfrom, List.forall_mem_cons.mpr
          ⟨hpick.trans _ _ _ hle hfrom, hall⟩,
          hmem.imp_right (List.mem_cons_of_mem _)⟩
      · rw [hv']
        obtain ⟨hP, hfrom, hall, hmem⟩ := ih hmore hv
        exact ⟨hP, hpick.trans _ _ _ hle hfrom,
          List.forall_mem_cons.mpr ⟨hfrom, hall⟩,
          .inr (hmem.elim (fun h => by rw [h]; exact List.mem_cons_self)
            (List.mem_cons_of_mem _))⟩

theorem isMaximum {values : List α} (hvalues : ∀ v ∈ values, P v) :
    IsMaximum zero values (values.foldl pick zero) := by
  obtain ⟨hP, -, hall, hmem⟩ := hpick.foldl_pick hvalues hpick.holds
  refine ⟨hall, ?_⟩
  cases values with
  | nil => exact .inr ⟨rfl, rfl⟩
  | cons v values =>
      refine .inl (hmem.elim (fun hzero => ?_) id)
      -- The greatest of them is not above `zero`, so it is none but `zero`.
      have hv := (List.forall_mem_cons.mp hvalues).1
      have hle := hall v List.mem_cons_self
      rw [hzero] at hle
      rw [hzero, hpick.antisymm zero v hpick.holds hv (hpick.zero_le v hv) hle]
      exact List.mem_cons_self

/-- The order of values does not matter for their maximum. -/
theorem maximum_unique {values values' : List α} {m m' : α}
    (hvalues : ∀ v ∈ values, P v) (hperm : values.Perm values')
    (h : IsMaximum zero values m) (h' : IsMaximum zero values' m') :
    m = m' := by
  obtain ⟨hall, hmem⟩ := h
  obtain ⟨hall', hmem'⟩ := h'
  rcases hmem with hmem | ⟨rfl, rfl⟩
  · rcases hmem' with hmem' | ⟨rfl, -⟩
    · have hfrom := hperm.mem_iff.mpr hmem'
      exact hpick.antisymm m m' (hvalues m hmem) (hvalues m' hfrom)
        (hall' m (hperm.mem_iff.mp hmem)) (hall m' hfrom)
    · rw [hperm.eq_nil] at hmem
      cases hmem
  · obtain rfl := hperm.nil_eq
    exact (hmem'.elim (fun h => nomatch h) And.right).symm

end PicksGreater

theorem picksGreater_max :
    PicksGreater (fun _ : Nat => True) 0 max where
  trans _ _ _ := Nat.le_trans
  antisymm _ _ _ _ := Nat.le_antisymm
  holds := trivial
  zero_le x _ := Nat.zero_le x
  picks x y _ _ := by omega

/-- Of numbers without a sign, the greater one is picked. -/
theorem picksGreater_greater :
    PicksGreater (fun x : Float => Binary64.Unsigned x.toModel.unpack) 0.0
      greater where
  trans _ _ _ := Binary64.le_trans
  antisymm x y hx hy hxy hyx := Binary64.eq_of_unsigned hx hy
    ((Binary64.le_iff.mp hxy).2.antisymm (Binary64.le_iff.mp hyx).2)
  holds := rfl
  zero_le x hx := Binary64.zero_le_of_unsigned hx
  picks x y hx hy := by
    rw [greater]
    by_cases hless : x < y
    · rw [if_pos hless]
      exact .inr ⟨rfl, Binary64.beq_or_lt_iff.mp (.inr hless)⟩
    · rw [if_neg hless]
      exact .inl ⟨rfl, Binary64.le_of_not_lt (Binary64.isNaN_of_unsigned hx)
        (Binary64.isNaN_of_unsigned hy) hless⟩

/-! ## Measured edges -/

theorem usableCapacity_pos {capacity : Option Json.Value} {x : Float}
    (h : usableCapacity capacity = some x) : 0.0 < x := by
  have hkept {y : Float}
      (h : (if y.isFinite && y > 0.0 then some y else none) = some x) :
      0.0 < x := by
    split at h
    · next hy =>
        obtain rfl : y = x := Option.some.inj h
        exact of_decide_eq_true (Bool.and_eq_true_iff.mp hy).2
    · cases h
  rw [usableCapacity] at h
  obtain ⟨value, -, h⟩ := Option.bind_eq_some_iff.mp h
  cases value with
  | number n => exact hkept h
  | string s =>
      obtain ⟨y, -, h⟩ := Option.bind_eq_some_iff.mp h
      exact hkept h
  | null | bool | array | object => cases h

/-- What a load is divided by is positive. -/
theorem Edge.load_pos {edge : Edge} : ∀ load ∈ edge.load, 0.0 < load.1 := by
  intro load hload
  obtain ⟨capacity, hcapacity, hload⟩ := Option.bind_eq_some_iff.mp hload
  obtain ⟨s, -, hload⟩ := Option.bind_eq_some_iff.mp hload
  obtain rfl : (capacity, s) = load := Option.some.inj hload
  exact usableCapacity_pos hcapacity

/-- What the aggregates know of an edge: its capacity and its outermost
counts. -/
structure Measure where
  capacity : Float
  least : UInt32
  most : UInt32

namespace Measure

/-- How far apart the counts are. -/
def spread (m : Measure) : Nat :=
  m.most.toNat - m.least.toNat

/-- The greatest count as a share of the capacity. -/
def load (m : Measure) : Float :=
  m.most.toFloat / m.capacity

/-- The measure of an edge that was summed up. -/
def ofLoad (load : Float × EdgeSummary) : Measure :=
  ⟨load.1, load.2.leastPassengers, load.2.mostPassengers⟩

end Measure

/-- The measure of an edge, if its capacity is usable. -/
def RawEdge.measure? (e : RawEdge) : Option Measure :=
  (usableCapacity e.capacity).map fun capacity =>
    ⟨capacity, firstCount e.cdf, lastCount e.cdf⟩

/-- The edges that are part of the forecast. -/
def counted (raw : List RawEdge) : List RawEdge :=
  raw.filter fun e => !e.isSelfLoop

/-- The measures of the edges that are part of the forecast. -/
def measured (raw : List RawEdge) : List Measure :=
  (counted raw).filterMap RawEdge.measure?

theorem capacity_of_measured {raw : List RawEdge} :
    ∀ m ∈ measured raw, 0.0 < m.capacity := by
  intro m hm
  obtain ⟨e, -, hm⟩ := List.mem_filterMap.mp hm
  obtain ⟨capacity, hcapacity, rfl⟩ := Option.map_eq_some_iff.mp hm
  exact usableCapacity_pos hcapacity

theorem measures_of_edges {raw : List RawEdge} {edges : List Edge}
    (h : List.Forall₂ (fun e edge => Edge.summarize e = .ok edge) raw edges) :
    (edges.filterMap Edge.load).map Measure.ofLoad
      = raw.filterMap RawEdge.measure? := by
  induction h with
  | nil => rfl
  | @cons e edge raw edges hedge _ ih =>
      rcases Edge.summarize_cases hedge with
        ⟨hcapacity, rfl⟩ | ⟨capacity, s, hcapacity, hs, rfl⟩
      · have hload : (Edge.unsummarized e).load = none := by
          show (usableCapacity e.capacity >>= fun _ => none) = none
          rw [hcapacity]
          rfl
        have hmeasure : e.measure? = none := by
          rw [RawEdge.measure?, hcapacity]
          rfl
        rw [List.filterMap_cons_none hload, List.filterMap_cons_none hmeasure,
          ih]
      · have hload : ({ Edge.unsummarized e with summary := some s } :
            Edge).load = some (capacity, s) := by
          show (usableCapacity e.capacity >>= fun capacity =>
            some (capacity, s)) = _
          rw [hcapacity]
          rfl
        obtain ⟨-, hleast, hmost⟩ := EdgeSummary.ofCdf_ok hs
        have hmeasure : e.measure? = some (Measure.ofLoad (capacity, s)) := by
          rw [RawEdge.measure?, hcapacity, Measure.ofLoad, hleast, hmost]
          rfl
        rw [List.filterMap_cons_some hload, List.filterMap_cons_some hmeasure,
          List.map_cons, ih]

/-- The greatest values over some measures. -/
structure Extremes.AreMaxima (x : Extremes) (measures : List Measure) :
    Prop where
  capacity : IsMaximum 0.0 (measures.map Measure.capacity) x.capacity
  passengers :
    IsMaximum 0 (measures.map fun m => m.most.toNat) x.passengers
  load : IsMaximum 0.0 (measures.map Measure.load) x.load
  spread : IsMaximum 0 (measures.map Measure.spread) x.spread

theorem Extremes.foldl_add (loads : List (Float × EdgeSummary))
    (x : Extremes) :
    loads.foldl Extremes.add x =
      let measures := loads.map Measure.ofLoad
      { capacity := (measures.map Measure.capacity).foldl greater x.capacity
        passengers :=
          (measures.map fun m => m.most.toNat).foldl max x.passengers
        load := (measures.map Measure.load).foldl greater x.load
        spread := (measures.map Measure.spread).foldl max x.spread } := by
  induction loads generalizing x with
  | nil => rfl
  | cons load loads ih =>
      rw [List.foldl_cons, ih]
      rfl

section

variable {measures : List Measure} (hpos : ∀ m ∈ measures, 0.0 < m.capacity)

include hpos

theorem unsigned_capacities : ∀ x ∈ measures.map Measure.capacity,
    Binary64.Unsigned x.toModel.unpack :=
  List.forall_mem_map.mpr fun m hm => Binary64.unsigned_of_pos (hpos m hm)

theorem unsigned_loads : ∀ x ∈ measures.map Measure.load,
    Binary64.Unsigned x.toModel.unpack :=
  List.forall_mem_map.mpr fun m hm => Binary64.unsigned_share _ (hpos m hm)

theorem Extremes.areMaxima_foldl {loads : List (Float × EdgeSummary)}
    (h : loads.map Measure.ofLoad = measures) :
    (loads.foldl Extremes.add Extremes.none).AreMaxima measures := by
  rw [Extremes.foldl_add, h]
  exact ⟨picksGreater_greater.isMaximum (unsigned_capacities hpos),
    picksGreater_max.isMaximum fun _ _ => trivial,
    picksGreater_greater.isMaximum (unsigned_loads hpos),
    picksGreater_max.isMaximum fun _ _ => trivial⟩

/-- The order of the measures does not matter. -/
theorem Extremes.AreMaxima.unique {measures' : List Measure} {x x' : Extremes}
    (hperm : measures.Perm measures') (h : x.AreMaxima measures)
    (h' : x'.AreMaxima measures') : x = x' := by
  have hcapacity := picksGreater_greater.maximum_unique
    (unsigned_capacities hpos) (hperm.map _) h.capacity h'.capacity
  have hpassengers := picksGreater_max.maximum_unique
    (fun _ _ => trivial) (hperm.map _) h.passengers h'.passengers
  have hload := picksGreater_greater.maximum_unique
    (unsigned_loads hpos) (hperm.map _) h.load h'.load
  have hspread := picksGreater_max.maximum_unique
    (fun _ _ => trivial) (hperm.map _) h.spread h'.spread
  cases x
  cases x'
  congr

end

/-! ## Trips -/

namespace TripForecast

/-- The aggregates of a forecast. -/
def extremes (f : TripForecast) : Extremes :=
  ⟨f.maxCapacity, f.maxPassengers, f.maxLoad, f.maxSpread⟩

variable {trip : Trip} {raw : List RawEdge} {context : TripContext}

theorem assemble_ok {f : TripForecast}
    (h : assemble trip raw context = .ok f) :
    List.Forall₂ (fun e edge => Edge.summarize e = .ok edge) (counted raw)
      f.edges ∧
    f.allEdgesHaveCapacity
      = (raw.all fun e => (usableCapacity e.capacity).isSome) ∧
    f.extremes = Extremes.ofEdges f.edges := by
  obtain ⟨edges, hedges, h⟩ := Json.ok_of_bind h
  obtain rfl := Except.ok.inj h
  exact ⟨mapM_ok_iff.mp hedges, rfl, rfl⟩

theorem areMaxima_extremes {f : TripForecast}
    (h : assemble trip raw context = .ok f) :
    f.extremes.AreMaxima (measured raw) := by
  obtain ⟨hedges, -, hextremes⟩ := assemble_ok h
  rw [hextremes, Extremes.ofEdges]
  exact Extremes.areMaxima_foldl capacity_of_measured (measures_of_edges hedges)

theorem assemble_error {error : ForecastError}
    (h : assemble trip raw context = .error error) :
    (counted raw).mapM Edge.summarize = .error error := by
  rw [assemble] at h
  cases hedges : (counted raw).mapM Edge.summarize with
  | error cause =>
      rw [counted] at hedges
      rw [hedges] at h
      rw [Except.error.inj h]
  | ok edges =>
      rw [counted] at hedges
      rw [hedges] at h
      cases h

theorem exists_assemble_iff :
    (∃ f, assemble trip raw context = .ok f) ↔
      ∀ e ∈ raw, e.isSelfLoop = false → ¬ e.FallsShort := by
  have hwalk : (∃ f, assemble trip raw context = .ok f) ↔
      ∃ edges, (counted raw).mapM Edge.summarize = .ok edges := by
    rw [assemble, counted]
    cases (raw.filter fun e => !e.isSelfLoop).mapM Edge.summarize with
    | error => simp [bind, Except.bind]
    | ok => simp [bind, Except.bind, pure, Except.pure]
  rw [hwalk, exists_mapM_iff, counted]
  simp only [Edge.exists_summarize_iff, List.mem_filter, Bool.not_eq_true',
    and_imp]

/-- The first edge that counts and falls short is the one to blame. -/
theorem first_of_error {error : ForecastError}
    (h : assemble trip raw context = .error error) :
    ∃ front e back level, raw = front ++ e :: back ∧
      (∀ other ∈ front, other.isSelfLoop = false → ¬ other.FallsShort) ∧
      e.isSelfLoop = false ∧ e.FallsShort ∧
      LeastUnreached e.cdf summaryLevels level ∧
      error = .invalidCdf level := by
  obtain ⟨front, e, back, hcounted, hfront, he⟩ := mapM_error (assemble_error h)
  obtain ⟨kept, others, rfl, rfl, hothers⟩ :=
    List.filter_eq_append_iff.mp hcounted
  obtain ⟨loops, rest, rfl, hloops, hcounts, -⟩ :=
    List.filter_eq_cons_iff.mp hothers
  obtain ⟨level, hlevel, rfl⟩ := Edge.summarize_error he
  have hshort : e.FallsShort := by
    by_contra hnot
    obtain ⟨edge, hedge⟩ := (Edge.exists_summarize_iff e).mpr hnot
    rw [hedge] at he
    cases he
  refine ⟨kept ++ loops, e, rest, level, (List.append_assoc ..).symm, ?_,
    by simpa using hcounts, hshort, hlevel, rfl⟩
  refine List.forall_mem_append.mpr ⟨fun other hother hcounts => ?_,
    fun other hother hcounts => ?_⟩
  · have hmem : other ∈ kept.filter fun e => !e.isSelfLoop :=
      List.mem_filter.mpr ⟨hother, by rw [hcounts]; rfl⟩
    exact (Edge.exists_summarize_iff other).mp (hfront other hmem)
  · exact absurd (by rw [hcounts]; rfl) (hloops other hother)

/-- A trip is refused just for an edge that counts and falls short, with the
least level that the first such edge does not reach. Otherwise the forecast has
the edges that count, in order, and the aggregates are maxima over those of them
with a usable capacity, which alone is ever divided by. The order of the edges
matters neither for being refused nor for the aggregates. -/
theorem assemble_outcome (trip : Trip) (raw : List RawEdge)
    (context : TripContext) :
    ((∃ error, assemble trip raw context = .error error) ↔
      ∃ e ∈ raw, e.isSelfLoop = false ∧ e.FallsShort) ∧
    (∀ error, assemble trip raw context = .error error →
      ∃ front e back level, raw = front ++ e :: back ∧
        (∀ other ∈ front, other.isSelfLoop = false → ¬ other.FallsShort) ∧
        e.isSelfLoop = false ∧ e.FallsShort ∧
        LeastUnreached e.cdf summaryLevels level ∧
        error = .invalidCdf level) ∧
    (∀ f, assemble trip raw context = .ok f →
      List.Forall₂ (fun e edge => ∃ summary,
        edge = { Edge.unsummarized e with summary } ∧
        summary.isSome = (usableCapacity e.capacity).isSome)
        (raw.filter fun e => !e.isSelfLoop) f.edges ∧
      (f.allEdgesHaveCapacity = true ↔
        ∀ e ∈ raw, (usableCapacity e.capacity).isSome) ∧
      f.extremes.AreMaxima (measured raw) ∧
      ∀ edge ∈ f.edges, ∀ load ∈ edge.load, 0.0 < load.1) ∧
    ∀ raw', raw.Perm raw' →
      ((∃ error, assemble trip raw context = .error error) ↔
        ∃ error, assemble trip raw' context = .error error) ∧
      ∀ f f', assemble trip raw context = .ok f →
        assemble trip raw' context = .ok f' →
        f.allEdgesHaveCapacity = f'.allEdgesHaveCapacity ∧
        f.extremes = f'.extremes := by
  have hrefused (raw : List RawEdge) :
      (∃ error, assemble trip raw context = .error error) ↔
        ∃ e ∈ raw, e.isSelfLoop = false ∧ e.FallsShort := by
    have hok := @exists_assemble_iff trip raw context
    cases h : assemble trip raw context with
    | error error =>
        have hnot : ¬ ∀ e ∈ raw, e.isSelfLoop = false → ¬ e.FallsShort := by
          intro hall
          obtain ⟨f, hf⟩ := hok.mpr hall
          rw [h] at hf
          cases hf
        simpa using hnot
    | ok f =>
        refine iff_of_false (by simp) ?_
        rintro ⟨e, he, hcounts, hshort⟩
        exact hok.mp ⟨f, h⟩ e he hcounts hshort
  refine ⟨hrefused raw, fun _ => first_of_error, fun f hf => ?_,
    fun raw' hperm => ⟨?_, fun f f' hf hf' => ?_⟩⟩
  · obtain ⟨hedges, hall, -⟩ := assemble_ok hf
    exact ⟨hedges.imp fun _ _ => Edge.summarize_ok,
      by rw [hall, List.all_eq_true], areMaxima_extremes hf,
      fun edge _ => edge.load_pos⟩
  · rw [hrefused, hrefused]
    simp only [hperm.mem_iff]
  · obtain ⟨-, hall, -⟩ := assemble_ok hf
    obtain ⟨-, hall', -⟩ := assemble_ok hf'
    refine ⟨by rw [hall, hall', hperm.all_eq], ?_⟩
    have hmeasured : (measured raw).Perm (measured raw') :=
      (hperm.filter _).filterMap _
    exact (areMaxima_extremes hf).unique capacity_of_measured hmeasured
      (areMaxima_extremes hf')

end TripForecast

end Ridership.Forecast

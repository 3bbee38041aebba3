import Ridership.Ranking

/-!
# What a ranking has kept

A ranking decides about every trip as it comes, and what it decides depends on
the trips it holds at that moment. Yet what it holds in the end can be said
without any of this: the first trip that may be ranked at all sets a mark, the
later ones above that mark are contenders with it, and the ranking holds the
front of all contenders in descending order, earlier ones first among equals.

The mark is what the filling of a ranking comes to. While there is room, the
lowest trip kept is the one that came first, for nothing below it is taken; and
once there is no room, a contender that is refused is one that would have gone
behind the last place.

The order is pinned down by two facts, that it descends and that trips of one
spread stand as they came. No other list of the same trips has both, so trips
that are put in one by one stand as a stable sort leaves them.
-/

namespace Ridership

open Forecast (TripForecast)
open Log (Line)

/-! ## Putting trips in order -/

/-- Whether one trip may stand before another. -/
def RankedTrip.before (t u : RankedTrip) : Bool :=
  u.spread ≤ t.spread

/-- The trips in descending order of their spread, those of one spread
as they came. -/
def RankedTrip.ranked (trips : List RankedTrip) : List RankedTrip :=
  trips.mergeSort RankedTrip.before

/-- Whether no trip stands before one that is more uncertain. -/
def RankedTrip.Descending (trips : List RankedTrip) : Prop :=
  trips.Pairwise fun t u => u.spread ≤ t.spread

/-- The trips of one spread. -/
def RankedTrip.ofSpread (k : Nat) (trips : List RankedTrip) : List RankedTrip :=
  trips.filter fun t => t.spread = k

theorem RankedTrip.before_trans (t u v : RankedTrip) (htu : t.before u)
    (huv : u.before v) : t.before v := by
  simp only [before, decide_eq_true_eq] at htu huv ⊢
  omega

theorem RankedTrip.before_total (t u : RankedTrip) :
    t.before u || u.before t := by
  simp only [before, Bool.or_eq_true, decide_eq_true_eq]
  omega

theorem RankedTrip.ofSpread_append (k : Nat) (a b : List RankedTrip) :
    ofSpread k (a ++ b) = ofSpread k a ++ ofSpread k b :=
  List.filter_append a b

theorem RankedTrip.mem_of_ofSpread {trips others : List RankedTrip}
    {t : RankedTrip} (ht : t ∈ trips)
    (h : ofSpread t.spread trips = ofSpread t.spread others) : t ∈ others := by
  have hmem : t ∈ ofSpread t.spread trips := by
    simp [ofSpread, ht]
  rw [h] at hmem
  exact (List.mem_filter.mp hmem).1

/-- There is one way to put trips in descending order that leaves the trips of
each spread as they are. -/
theorem RankedTrip.eq_of_ofSpread {trips others : List RankedTrip}
    (hs : Descending trips) (ho : Descending others)
    (h : ∀ k, ofSpread k trips = ofSpread k others) : trips = others := by
  induction trips generalizing others with
  | nil =>
      cases others with
      | nil => rfl
      | cons u others =>
          exact absurd (mem_of_ofSpread List.mem_cons_self (h u.spread).symm)
            List.not_mem_nil
  | cons t trips ih =>
      cases others with
      | nil =>
          exact absurd (mem_of_ofSpread List.mem_cons_self (h t.spread))
            List.not_mem_nil
      | cons u others =>
          have hle : t.spread ≤ u.spread := by
            have hmem := mem_of_ofSpread List.mem_cons_self (h t.spread)
            rcases List.mem_cons.mp hmem with rfl | hmem
            · exact Nat.le_refl _
            · exact List.rel_of_pairwise_cons ho hmem
          have hge : u.spread ≤ t.spread := by
            have hmem := mem_of_ofSpread List.mem_cons_self (h u.spread).symm
            rcases List.mem_cons.mp hmem with rfl | hmem
            · exact Nat.le_refl _
            · exact List.rel_of_pairwise_cons hs hmem
          have hspread : u.spread = t.spread := Nat.le_antisymm hge hle
          have hfront := h t.spread
          simp only [ofSpread, List.filter_cons, hspread, decide_true,
            if_true, List.cons.injEq] at hfront
          obtain ⟨rfl, -⟩ := hfront
          congr 1
          refine ih hs.tail ho.tail fun k => ?_
          have hk := h k
          simp only [ofSpread, List.filter_cons] at hk ⊢
          split at hk
          · exact List.tail_eq_of_cons_eq hk
          · exact hk

theorem RankedTrip.ranked_descending (trips : List RankedTrip) :
    Descending (ranked trips) := by
  have hsorted := List.pairwise_mergeSort before_trans before_total trips
  exact hsorted.imp fun h => by simpa [before] using h

theorem RankedTrip.ofSpread_ranked (k : Nat) (trips : List RankedTrip) :
    ofSpread k (ranked trips) = ofSpread k trips := by
  have hsame : (ofSpread k trips).Pairwise fun t u => t.before u = true := by
    rw [List.pairwise_iff_forall_sublist]
    intro t u hsub
    have ht := List.mem_filter.mp (hsub.mem (List.mem_cons_self ..))
    have hu := List.mem_filter.mp (hsub.mem (List.mem_cons_of_mem _
      (List.mem_singleton.mpr rfl)))
    simp only [decide_eq_true_eq] at ht hu
    simp only [before, decide_eq_true_eq]
    omega
  have hkept : (ofSpread k trips).Sublist (ranked trips) :=
    List.sublist_mergeSort before_trans before_total hsame
      List.filter_sublist
  have hsub : (ofSpread k trips).Sublist (ofSpread k (ranked trips)) := by
    simpa [ofSpread, List.filter_filter] using
      hkept.filter fun t => t.spread = k
  have hlength : (ofSpread k trips).length
      = (ofSpread k (ranked trips)).length :=
    ((List.mergeSort_perm trips before).filter _).length_eq.symm
  exact (hsub.eq_of_length hlength).symm

/-! ## Putting in one trip more -/

theorem RankedTrip.insertInto_cons (t u : RankedTrip)
    (trips : List RankedTrip) :
    t.insertInto (u :: trips)
      = if t.spread ≤ u.spread then u :: t.insertInto trips
        else t :: u :: trips := by
  by_cases h : t.spread ≤ u.spread
  · simp [insertInto, h]
  · simp [insertInto, h]

theorem RankedTrip.mem_insertInto {t v : RankedTrip}
    {trips : List RankedTrip} (h : v ∈ t.insertInto trips) :
    v = t ∨ v ∈ trips := by
  induction trips with
  | nil => exact .inl (by simpa [insertInto] using h)
  | cons u trips ih =>
      rw [insertInto_cons] at h
      split at h
      · rcases List.mem_cons.mp h with rfl | h
        · exact .inr List.mem_cons_self
        · exact (ih h).imp id (List.mem_cons_of_mem u)
      · exact List.mem_cons.mp h

theorem RankedTrip.insertInto_descending (t : RankedTrip)
    {trips : List RankedTrip} (h : Descending trips) :
    Descending (t.insertInto trips) := by
  induction trips with
  | nil => exact List.pairwise_singleton _ _
  | cons u trips ih =>
      obtain ⟨hu, htrips⟩ := List.pairwise_cons.mp h
      rw [insertInto_cons]
      split
      · next hle =>
          refine List.pairwise_cons.mpr ⟨fun v hv => ?_, ih htrips⟩
          rcases mem_insertInto hv with rfl | hv
          · exact hle
          · exact hu v hv
      · next hlt =>
          refine List.pairwise_cons.mpr ⟨fun v hv => ?_, h⟩
          rcases List.mem_cons.mp hv with rfl | hv
          · omega
          · have := hu v hv
            omega

/-- The trip that is put in stands behind those of its spread. -/
theorem RankedTrip.ofSpread_insertInto (k : Nat) (t : RankedTrip)
    {trips : List RankedTrip} (h : Descending trips) :
    ofSpread k (t.insertInto trips) = ofSpread k (trips ++ [t]) := by
  induction trips with
  | nil => rfl
  | cons u trips ih =>
      obtain ⟨hu, htrips⟩ := List.pairwise_cons.mp h
      rw [insertInto_cons]
      split
      · have hrest := ih htrips
        simp only [ofSpread, List.cons_append, List.filter_cons] at hrest ⊢
        rw [hrest]
      · next hlt =>
          by_cases hk : t.spread = k
          · have hnone : ofSpread k (u :: trips) = [] := by
              refine List.filter_eq_nil_iff.mpr fun v hv => ?_
              rcases List.mem_cons.mp hv with rfl | hv
              · simp only [decide_eq_true_eq]
                omega
              · have := hu v hv
                simp only [decide_eq_true_eq]
                omega
            have hfront : ofSpread k (t :: u :: trips)
                = t :: ofSpread k (u :: trips) :=
              List.filter_cons_of_pos (by simpa using hk)
            have hback : ofSpread k [t] = [t] :=
              List.filter_cons_of_pos (by simpa using hk)
            rw [hfront, ofSpread_append, hnone, hback, List.nil_append]
          · simp [ofSpread, List.filter_append, List.filter_cons, hk]

/-- A trip that comes last is put into the trips that are in order already. -/
theorem RankedTrip.ranked_concat (trips : List RankedTrip) (t : RankedTrip) :
    ranked (trips ++ [t]) = t.insertInto (ranked trips) := by
  refine eq_of_ofSpread (ranked_descending _)
    (t.insertInto_descending (ranked_descending trips)) fun k => ?_
  calc ofSpread k (ranked (trips ++ [t]))
      = ofSpread k (trips ++ [t]) := ofSpread_ranked k _
    _ = ofSpread k (ranked trips ++ [t]) := by
        rw [ofSpread_append, ofSpread_append, ofSpread_ranked]
    _ = ofSpread k (t.insertInto (ranked trips)) :=
        (ofSpread_insertInto k t (ranked_descending trips)).symm

/-! ## A front of them is enough -/

/-- What stands behind the first places has no part in what is
put into them. -/
theorem RankedTrip.take_insertInto_take (t : RankedTrip) (n : Nat)
    (trips : List RankedTrip) :
    (t.insertInto (trips.take n)).take n = (t.insertInto trips).take n := by
  induction trips generalizing n with
  | nil => rw [List.take_nil]
  | cons u trips ih =>
      cases n with
      | zero => rw [List.take_zero, List.take_zero]
      | succ n =>
          rw [List.take_succ_cons, insertInto_cons, insertInto_cons]
          split
          · rw [List.take_succ_cons, List.take_succ_cons, ih]
          · cases n with
            | zero => rfl
            | succ n => simp [List.take_take]

theorem RankedTrip.take_insertInto_of_le {t : RankedTrip} {n : Nat}
    {trips : List RankedTrip} (hn : n ≤ trips.length)
    (h : ∀ u ∈ trips.take n, t.spread ≤ u.spread) :
    (t.insertInto trips).take n = trips.take n := by
  induction trips generalizing n with
  | nil =>
      obtain rfl : n = 0 := by simpa using hn
      rw [List.take_zero, List.take_zero]
  | cons u trips ih =>
      cases n with
      | zero => rw [List.take_zero, List.take_zero]
      | succ n =>
          rw [List.take_succ_cons] at h ⊢
          rw [insertInto_cons, if_pos (h u List.mem_cons_self),
            List.take_succ_cons]
          congr 1
          exact ih (Nat.le_of_succ_le_succ hn) fun v hv =>
            h v (List.mem_cons_of_mem u hv)

/-- The spread of the last trip, zero if there is none. -/
def RankedTrip.lastSpread (trips : List RankedTrip) : Nat :=
  (trips.getLast?.map spread).getD 0

theorem RankedTrip.lastSpread_mem {trips : List RankedTrip}
    (h : trips ≠ []) : ∃ u ∈ trips, lastSpread trips = u.spread := by
  refine ⟨trips.getLast h, List.getLast_mem h, ?_⟩
  rw [lastSpread, List.getLast?_eq_some_getLast h]
  rfl

theorem RankedTrip.lastSpread_le {trips : List RankedTrip}
    (hs : Descending trips) {u : RankedTrip} (hu : u ∈ trips) :
    lastSpread trips ≤ u.spread := by
  induction trips with
  | nil => exact absurd hu List.not_mem_nil
  | cons v trips ih =>
      obtain ⟨hv, htrips⟩ := List.pairwise_cons.mp hs
      cases trips with
      | nil =>
          obtain rfl := List.mem_singleton.mp hu
          exact Nat.le_refl _
      | cons w trips =>
          have hlast : lastSpread (v :: w :: trips)
              = lastSpread (w :: trips) := by
            rw [lastSpread, lastSpread, List.getLast?_cons_cons]
          rw [hlast]
          rcases List.mem_cons.mp hu with rfl | hu
          · obtain ⟨x, hx, hlast⟩ := lastSpread_mem (List.cons_ne_nil w trips)
            rw [hlast]
            exact hv x hx
          · exact ih htrips hu

/-! ## Who contends -/

/-- A trip as it is kept, with the line it was found on and that
line's time. -/
def RankedTrip.ofOffer (offer : TripForecast × Line) : RankedTrip :=
  { line := offer.2
    forecast := { offer.1 with systemTime := offer.2.systemTime } }

/-- Whether a trip may be ranked: it is uncertain at all, and all its edges
have a capacity. -/
def qualifies (offer : TripForecast × Line) : Bool :=
  0 < offer.1.maxSpread && offer.1.allEdgesHaveCapacity

/-- The offers that contend for a place: the first that qualifies, and the
later ones that qualify and are more uncertain than the first. -/
def contenders (offers : List (TripForecast × Line)) : List RankedTrip :=
  match offers.filter qualifies with
  | [] => []
  | first :: later =>
      (first :: later.filter fun offer =>
        first.1.maxSpread < offer.1.maxSpread).map RankedTrip.ofOffer

/-- Whether an offer contends after others: it qualifies, and it is above the
mark that the first of them has set. -/
def contendsAfter (offers : List (TripForecast × Line))
    (offer : TripForecast × Line) : Bool :=
  qualifies offer && match offers.filter qualifies with
    | [] => true
    | first :: _ => first.1.maxSpread < offer.1.maxSpread

theorem contenders_concat (offers : List (TripForecast × Line))
    (offer : TripForecast × Line) :
    contenders (offers ++ [offer])
      = contenders offers
        ++ if contendsAfter offers offer then [.ofOffer offer] else [] := by
  cases hq : qualifies offer with
  | false => simp [contenders, contendsAfter, List.filter_append, hq]
  | true =>
      cases hf : offers.filter qualifies with
      | nil => simp [contenders, contendsAfter, List.filter_append, hq, hf]
      | cons first later =>
          by_cases hmark : first.1.maxSpread < offer.1.maxSpread
          · simp [contenders, contendsAfter, List.filter_append, hq, hf,
              hmark]
          · simp [contenders, contendsAfter, List.filter_append, hq, hf,
              hmark]

/-- Who has set the mark contends, and no contender is below it. -/
theorem contenders_of_first {offers later : List (TripForecast × Line)}
    {first : TripForecast × Line}
    (hf : offers.filter qualifies = first :: later) :
    RankedTrip.ofOffer first ∈ contenders offers ∧
    ∀ t ∈ contenders offers, first.1.maxSpread ≤ t.spread := by
  have hall : contenders offers = RankedTrip.ofOffer first
      :: (later.filter fun offer =>
        first.1.maxSpread < offer.1.maxSpread).map RankedTrip.ofOffer := by
    rw [contenders, hf]
    rfl
  rw [hall]
  refine ⟨List.mem_cons_self, fun t ht => ?_⟩
  rcases List.mem_cons.mp ht with rfl | ht
  · exact Nat.le_refl _
  · obtain ⟨offer, hoffer, rfl⟩ := List.mem_map.mp ht
    exact Nat.le_of_lt (of_decide_eq_true (List.mem_filter.mp hoffer).2)

theorem contenders_of_none {offers : List (TripForecast × Line)}
    (hf : offers.filter qualifies = []) : contenders offers = [] := by
  rw [contenders, hf]

/-! ## What a ranking holds -/

/-- Offers one trip after another. -/
def Ranking.offerAll (r : Ranking) (offers : List (TripForecast × Line)) :
    Ranking :=
  offers.foldl (fun r offer => (r.offer offer.1 offer.2).1) r

/-- A ranking that holds what it should hold after some offers, and knows the
spread of the last. -/
structure Ranking.Holds (capacity : Nat) (offers : List (TripForecast × Line))
    (r : Ranking) : Prop where
  capacity_eq : r.capacity = capacity
  trips_eq :
    r.trips = (RankedTrip.ranked (contenders offers)).take capacity
  minSpread_eq : r.minSpread = RankedTrip.lastSpread r.trips

section

variable {capacity : Nat} {offers : List (TripForecast × Line)} {r : Ranking}

theorem Ranking.holds_empty (capacity : Nat) :
    (Ranking.empty capacity).Holds capacity [] := by
  refine ⟨rfl, ?_, rfl⟩
  simp [empty, contenders, RankedTrip.ranked]

theorem Ranking.Holds.descending (h : r.Holds capacity offers) :
    RankedTrip.Descending r.trips := by
  rw [h.trips_eq]
  exact (RankedTrip.ranked_descending _).sublist (List.take_sublist _ _)

theorem Ranking.Holds.mem_contenders (h : r.Holds capacity offers)
    {t : RankedTrip} (ht : t ∈ r.trips) : t ∈ contenders offers := by
  rw [h.trips_eq] at ht
  exact List.mem_mergeSort.mp (List.mem_of_mem_take ht)

theorem Ranking.Holds.contends (h : r.Holds capacity offers)
    (hc : 1 ≤ capacity) {offer : TripForecast × Line}
    (hq : qualifies offer) (hm : r.minSpread < offer.1.maxSpread) :
    contendsAfter offers offer := by
  rw [contendsAfter, hq, Bool.true_and]
  cases hf : offers.filter qualifies with
  | nil => rfl
  | cons first later =>
      obtain ⟨hfirst, hmark⟩ := contenders_of_first hf
      have hsome : r.trips ≠ [] := by
        intro hnil
        have hlength := congrArg List.length (h.trips_eq.symm.trans hnil)
        have hpos := List.length_pos_of_mem hfirst
        simp only [List.length_take, RankedTrip.ranked,
          List.length_mergeSort, List.length_nil] at hlength
        omega
      obtain ⟨t, ht, hlast⟩ := RankedTrip.lastSpread_mem hsome
      have hle := hmark t (h.mem_contenders ht)
      rw [h.minSpread_eq, hlast] at hm
      exact decide_eq_true (Nat.lt_of_le_of_lt hle hm)

/-- A contender that is not above the last one kept would go behind the
last place. -/
theorem Ranking.Holds.refused (h : r.Holds capacity offers)
    {offer : TripForecast × Line} (hoffer : contendsAfter offers offer)
    (hm : offer.1.maxSpread ≤ r.minSpread) :
    ((RankedTrip.ofOffer offer).insertInto
        (RankedTrip.ranked (contenders offers))).take capacity = r.trips := by
  obtain ⟨hq, hmark⟩ := Bool.and_eq_true_iff.mp hoffer
  have hpos : 0 < offer.1.maxSpread := by
    simpa using (Bool.and_eq_true_iff.mp hq).1
  have hkept : ∀ t ∈ r.trips, offer.1.maxSpread ≤ t.spread := fun t ht =>
    Nat.le_trans (h.minSpread_eq ▸ hm)
      (RankedTrip.lastSpread_le h.descending ht)
  -- With room left, the trip that has set the mark would be among those kept.
  have hfull : capacity ≤ (RankedTrip.ranked (contenders offers)).length := by
    refine Nat.le_of_not_lt fun hroom => ?_
    have hall : r.trips = RankedTrip.ranked (contenders offers) := by
      rw [h.trips_eq, List.take_of_length_le (Nat.le_of_lt hroom)]
    cases hf : offers.filter qualifies with
    | nil =>
        have hnone : r.trips = [] := by
          rw [hall, contenders_of_none hf]
          exact List.mergeSort_nil
        rw [h.minSpread_eq, hnone] at hm
        exact absurd hpos (Nat.not_lt.mpr hm)
    | cons first later =>
        have hfirst : RankedTrip.ofOffer first ∈ r.trips := by
          rw [hall]
          exact List.mem_mergeSort.mpr (contenders_of_first hf).1
        rw [hf] at hmark
        exact absurd (of_decide_eq_true hmark)
          (Nat.not_lt.mpr (hkept _ hfirst))
  rw [RankedTrip.take_insertInto_of_le hfull, h.trips_eq]
  rw [← h.trips_eq]
  exact hkept

theorem Ranking.Holds.offer (h : r.Holds capacity offers) (hc : 1 ≤ capacity)
    (offer : TripForecast × Line) :
    (r.offer offer.1 offer.2).1.Holds capacity (offers ++ [offer]) := by
  have htakes : r.takes offer.1
      = (qualifies offer && decide (r.minSpread < offer.1.maxSpread)) := by
    have hroom : r.capacity ≠ 0 := by
      rw [h.capacity_eq]
      omega
    simp [takes, qualifies, hroom, Nat.pos_iff_ne_zero]
  cases ht : r.takes offer.1 with
  | true =>
      rw [htakes, Bool.and_eq_true, decide_eq_true_eq] at ht
      have hcontends := h.contends hc ht.1 ht.2
      have hoffer : (r.offer offer.1 offer.2).1 = r.withTrips
          (((RankedTrip.ofOffer offer).insertInto r.trips).take
            r.capacity) := by
        rw [Ranking.offer, if_pos]
        · rfl
        · rw [htakes, ht.1, decide_eq_true ht.2]
          rfl
      rw [hoffer]
      refine ⟨h.capacity_eq, ?_, rfl⟩
      show ((RankedTrip.ofOffer offer).insertInto r.trips).take r.capacity = _
      rw [contenders_concat, if_pos hcontends, RankedTrip.ranked_concat,
        h.capacity_eq, h.trips_eq, RankedTrip.take_insertInto_take]
  | false =>
      have hoffer : (r.offer offer.1 offer.2).1 = r := by
        rw [Ranking.offer, if_neg]
        simp [ht]
      rw [hoffer]
      refine ⟨h.capacity_eq, ?_, h.minSpread_eq⟩
      rw [contenders_concat]
      split
      · next hcontends =>
          have hq := (Bool.and_eq_true_iff.mp hcontends).1
          rw [htakes, hq, Bool.true_and, decide_eq_false_iff_not] at ht
          rw [RankedTrip.ranked_concat,
            h.refused hcontends (Nat.le_of_not_lt ht)]
      · rw [List.append_nil, h.trips_eq]

theorem Ranking.Holds.offerAll (h : r.Holds capacity offers)
    (hc : 1 ≤ capacity) (more : List (TripForecast × Line)) :
    (r.offerAll more).Holds capacity (offers ++ more) := by
  induction more generalizing r offers with
  | nil =>
      rw [List.append_nil]
      exact h
  | cons offer more ih =>
      have hrest := ih (h.offer hc offer)
      rw [List.append_assoc] at hrest
      exact hrest

end

/-- What a ranking holds after any offers: the front of the contenders among
them, in descending order and the earlier ones first among equals. -/
theorem Ranking.trips_offerAll {capacity : Nat} (h : 1 ≤ capacity)
    (offers : List (TripForecast × Line)) :
    ((Ranking.empty capacity).offerAll offers).trips
      = ((contenders offers).mergeSort
          fun t u => u.spread ≤ t.spread).take capacity :=
  ((holds_empty capacity).offerAll h offers).trips_eq

/-- A forecast of which only the spread is told. -/
def forecastOfSpread (spread : Nat) : TripForecast :=
  { trip := ⟨none, []⟩, edges := [], allEdgesHaveCapacity := true,
    maxCapacity := 0.0, maxPassengers := spread, maxLoad := 0.0,
    maxSpread := spread, primaryStation := none, secondaryStation := none,
    serviceInfos := none, displayName := "", systemTime := none }

/-- The second of these is below the mark that the first has set. -/
def fiveOffers : List (TripForecast × Line) :=
  [(forecastOfSpread 3, .between 0 9), (forecastOfSpread 2, .between 10 19),
    (forecastOfSpread 4, .between 20 29), (forecastOfSpread 5, .between 30 39),
    (forecastOfSpread 4, .between 40 49)]

/-- Of the two that are equal the later one falls off the end. -/
theorem Ranking.trips_offerAll_of_five :
    1 ≤ 2 ∧
    ((Ranking.empty 2).offerAll fiveOffers).trips
      = ((contenders fiveOffers).mergeSort
          fun t u => u.spread ≤ t.spread).take 2 ∧
    ((Ranking.empty 2).offerAll fiveOffers).trips.map
        (fun t => (t.spread, t.line.start)) = [(5, 30), (4, 20)] :=
  ⟨by decide, trips_offerAll (by decide) fiveOffers, by decide +kernel⟩

end Ridership

import Mathlib.Data.List.Basic
import Mathlib.Data.List.TakeWhile
import Ridership.Proofs.RankedTrips

/-!
# A refusal is final

A ranking keeps the least spread it holds, and that number decides who is taken
next. It stays in step with the trips (`Ranking.InOrder`) because a trip that is
taken never falls off the end again. It is above the last trip, so it is put in
before it, and if the ranking is full, that last trip is the one to go
(`Ranking.InOrder.offer_taken`).

So at every offer each trip that is held afterwards is the new one, which is
above the least spread, or one of those before. Neither the least nor the
greatest spread can become less, and whoever was refused once is refused
whenever it comes again.
-/

namespace Ridership

open Forecast (TripForecast)
open Log (Line)

/-- The spread of the first trip, zero if there is none. -/
def RankedTrip.firstSpread (trips : List RankedTrip) : Nat :=
  (trips.head?.map spread).getD 0

/-- What holds of a ranking for so many trips at any time. -/
structure Ranking.InOrder (capacity : Nat) (r : Ranking) : Prop where
  capacity_eq : r.capacity = capacity
  length_le : r.trips.length ≤ capacity
  descending : RankedTrip.Descending r.trips
  qualified : ∀ t ∈ r.trips, 0 < t.spread ∧ t.forecast.allEdgesHaveCapacity
  minSpread_eq : r.minSpread = RankedTrip.lastSpread r.trips
  maxSpread_eq : r.maxSpread = RankedTrip.firstSpread r.trips

/-! ## Putting in a trip that is above the last -/

section

variable {trips : List RankedTrip} {t : RankedTrip} {capacity : Nat}

/-- A trip that is put into a bounded list above its last one is in the list
afterwards, between the same trips as before; only if the list was full, the
last one is gone. -/
theorem RankedTrip.take_insertInto_of_lt (hroom : capacity ≠ 0)
    (hlength : trips.length ≤ capacity) (ht : lastSpread trips < t.spread) :
    ∃ front back evicted,
      trips = front ++ back ++ evicted ∧
      (t.insertInto trips).take capacity = front ++ t :: back ∧
      evicted.length = if trips.length = capacity then 1 else 0 := by
  have hsplit : trips.takeWhile (fun u => t.spread ≤ u.spread)
      ++ trips.dropWhile (fun u => t.spread ≤ u.spread) = trips :=
    List.takeWhile_append_dropWhile
  have hfront : ∀ u ∈ trips.takeWhile (fun u => t.spread ≤ u.spread),
      t.spread ≤ u.spread := fun u hu => by
    simpa using List.mem_takeWhile_imp hu
  rw [insertInto]
  generalize trips.takeWhile (fun u => t.spread ≤ u.spread) = front at *
  generalize trips.dropWhile (fun u => t.spread ≤ u.spread) = behind at *
  subst hsplit
  by_cases hfull : (front ++ behind).length = capacity
  · rcases List.eq_nil_or_concat' behind with rfl | ⟨back, last, rfl⟩
    · -- The last trip would be in front, so it would not be below.
      rw [List.append_nil] at hfull ht
      have hne : front ≠ [] := by
        rintro rfl
        exact hroom hfull.symm
      obtain ⟨u, hu, hlast⟩ := lastSpread_mem hne
      have hle := hfront u hu
      omega
    · refine ⟨front, back, [last], by rw [List.append_assoc], ?_,
        by rw [if_pos hfull]; rfl⟩
      have hcapacity : capacity = (front ++ t :: back).length := by
        rw [← hfull]
        simp only [List.length_append, List.length_cons, List.length_nil]
      rw [hcapacity, ← List.cons_append, ← List.append_assoc,
        List.take_left]
  · refine ⟨front, behind, [], (List.append_nil _).symm, ?_,
      by rw [if_neg hfull]; rfl⟩
    refine List.take_of_length_le ?_
    simp only [List.length_append, List.length_cons] at hlength hfull ⊢
    omega

theorem RankedTrip.lastSpread_eq_zero (h : ∀ u ∈ trips, 0 < u.spread) :
    lastSpread trips = 0 ↔ trips = [] := by
  refine ⟨fun hzero => ?_, fun hnil => by rw [hnil]; rfl⟩
  cases trips with
  | nil => rfl
  | cons v trips =>
      obtain ⟨u, hu, hlast⟩ := lastSpread_mem (List.cons_ne_nil v trips)
      have hpos := h u hu
      omega

theorem RankedTrip.firstSpread_eq_zero (h : ∀ u ∈ trips, 0 < u.spread) :
    firstSpread trips = 0 ↔ trips = [] := by
  cases trips with
  | nil => exact iff_of_true rfl rfl
  | cons u trips =>
      have hpos := h u List.mem_cons_self
      exact iff_of_false (Nat.ne_of_gt hpos) (List.cons_ne_nil u trips)

theorem RankedTrip.firstSpread_le_insertInto (hroom : capacity ≠ 0)
    (t : RankedTrip) (trips : List RankedTrip) :
    firstSpread trips
      ≤ firstSpread ((t.insertInto trips).take capacity) := by
  obtain ⟨n, rfl⟩ := Nat.exists_eq_succ_of_ne_zero hroom
  cases trips with
  | nil => exact Nat.zero_le _
  | cons u trips =>
      rw [insertInto_cons]
      split
      · exact Nat.le_refl _
      · next hless => exact Nat.le_of_lt (Nat.lt_of_not_le hless)

end

/-! ## One offer -/

section

variable {capacity : Nat} {r : Ranking} {f : TripForecast}

theorem Ranking.takes_iff : r.takes f ↔ r.capacity ≠ 0 ∧
    (0 < f.maxSpread ∧ f.allEdgesHaveCapacity) ∧
    r.minSpread < f.maxSpread := by
  simp [takes, Nat.pos_iff_ne_zero, and_assoc]

theorem Ranking.offer_taken_eq (line : Line) :
    (r.offer f line).2 = r.takes f := by
  rw [offer]
  split
  · next h => exact h.symm
  · next h => exact (Bool.eq_false_iff.mpr h).symm

theorem Ranking.offer_of_takes (h : r.takes f) (line : Line) :
    (r.offer f line).1 = r.withTrips
      (((RankedTrip.ofOffer (f, line)).insertInto r.trips).take
        r.capacity) := by
  rw [offer, if_pos h]
  rfl

theorem Ranking.offer_of_not_takes (h : ¬ r.takes f) (line : Line) :
    (r.offer f line).1 = r := by
  rw [offer, if_neg h]

theorem Ranking.inOrder_empty (capacity : Nat) :
    (Ranking.empty capacity).InOrder capacity where
  capacity_eq := rfl
  length_le := Nat.zero_le _
  descending := .nil
  qualified := List.forall_mem_nil _
  minSpread_eq := rfl
  maxSpread_eq := rfl

/-- What taking a trip does: it is put in, all others stay in their order, and
the last one goes if there were as many as there may be. -/
theorem Ranking.InOrder.offer_taken (h : r.InOrder capacity) (ht : r.takes f)
    (line : Line) :
    ∃ front back evicted,
      r.trips = front ++ back ++ evicted ∧
      (r.offer f line).1.trips = front ++ .ofOffer (f, line) :: back ∧
      evicted.length = if r.trips.length = capacity then 1 else 0 := by
  obtain ⟨hroom, -, hless⟩ := takes_iff.mp ht
  rw [h.capacity_eq] at hroom
  rw [h.minSpread_eq] at hless
  rw [offer_of_takes ht, h.capacity_eq]
  exact RankedTrip.take_insertInto_of_lt hroom h.length_le hless

theorem Ranking.InOrder.offer (h : r.InOrder capacity) (f : TripForecast)
    (line : Line) : (r.offer f line).1.InOrder capacity := by
  by_cases ht : r.takes f
  · have hdescending := offer_descending h.descending (f, line)
    have hmem {u} := @mem_offer r u (f, line)
    simp only [offer_of_takes ht] at hdescending hmem ⊢
    refine ⟨h.capacity_eq, ?_, hdescending, fun u hu => ?_, rfl, rfl⟩
    · rw [← h.capacity_eq]
      exact List.length_take_le _ _
    · rcases hmem hu with rfl | hu
      · exact (takes_iff.mp ht).2.1
      · exact h.qualified u hu
  · rw [offer_of_not_takes ht]
    exact h

/-- Neither the least nor the greatest spread becomes less. -/
theorem Ranking.InOrder.spreads_le_offer (h : r.InOrder capacity)
    (f : TripForecast) (line : Line) :
    r.minSpread ≤ (r.offer f line).1.minSpread ∧
    r.maxSpread ≤ (r.offer f line).1.maxSpread := by
  by_cases ht : r.takes f
  · obtain ⟨hroom, -, hless⟩ := takes_iff.mp ht
    refine ⟨?_, ?_⟩
    · -- Every trip that is held now is the new one or was held before.
      obtain ⟨front, back, -, -, hoffer, -⟩ := h.offer_taken ht line
      have hne : (r.offer f line).1.trips ≠ [] := by
        rw [hoffer]
        exact List.append_ne_nil_of_right_ne_nil _ (List.cons_ne_nil _ _)
      obtain ⟨u, hu, hlast⟩ := RankedTrip.lastSpread_mem hne
      rw [(h.offer f line).minSpread_eq, hlast]
      rcases @mem_offer r u (f, line) hu with rfl | hu
      · exact Nat.le_of_lt hless
      · rw [h.minSpread_eq]
        exact RankedTrip.lastSpread_le h.descending hu
    · rw [offer_of_takes ht, h.maxSpread_eq]
      exact RankedTrip.firstSpread_le_insertInto hroom _ _
  · rw [offer_of_not_takes ht]
    exact ⟨Nat.le_refl _, Nat.le_refl _⟩

/-! ## All offers -/

theorem Ranking.InOrder.offerAll (h : r.InOrder capacity)
    (offers : List (TripForecast × Line)) :
    (r.offerAll offers).InOrder capacity := by
  induction offers generalizing r with
  | nil => exact h
  | cons offer offers ih => exact ih (h.offer offer.1 offer.2)

theorem Ranking.InOrder.spreads_le_offerAll (h : r.InOrder capacity)
    (offers : List (TripForecast × Line)) :
    r.minSpread ≤ (r.offerAll offers).minSpread ∧
    r.maxSpread ≤ (r.offerAll offers).maxSpread := by
  induction offers generalizing r with
  | nil => exact ⟨Nat.le_refl _, Nat.le_refl _⟩
  | cons offer offers ih =>
      obtain ⟨hmin, hmax⟩ := h.spreads_le_offer offer.1 offer.2
      obtain ⟨hmin', hmax'⟩ := ih (h.offer offer.1 offer.2)
      exact ⟨Nat.le_trans hmin hmin', Nat.le_trans hmax hmax'⟩

/-- Who is taken after more offers would have been taken before them. -/
theorem Ranking.InOrder.takes_of_takes_later (h : r.InOrder capacity)
    {offers : List (TripForecast × Line)}
    (ht : (r.offerAll offers).takes f) : r.takes f := by
  obtain ⟨hroom, hqualified, hless⟩ := takes_iff.mp ht
  rw [(h.offerAll offers).capacity_eq, ← h.capacity_eq] at hroom
  exact takes_iff.mpr ⟨hroom, hqualified,
    Nat.lt_of_le_of_lt (h.spreads_le_offerAll offers).1 hless⟩

end

/-- After any offers, a ranking holds no more trips than it may, in descending
order, all of which qualify; its least and greatest spread are those of the last
and the first trip, zero if there is none. The next offer is refused, with
nothing changed, or is found among the trips, from which at most the last one is
gone. Both spreads only grow, so what is refused is refused for good. -/
theorem Ranking.refused_for_good (capacity : Nat)
    (offers : List (TripForecast × Line)) :
    let r := (Ranking.empty capacity).offerAll offers
    (r.trips.length ≤ capacity ∧
      (r.trips.Pairwise fun t u => u.spread ≤ t.spread) ∧
      (∀ t ∈ r.trips, 0 < t.spread ∧ t.forecast.allEdgesHaveCapacity) ∧
      r.minSpread = (r.trips.getLast?.map RankedTrip.spread).getD 0 ∧
      r.maxSpread = (r.trips.head?.map RankedTrip.spread).getD 0 ∧
      (r.minSpread = 0 ↔ r.trips = []) ∧ (r.maxSpread = 0 ↔ r.trips = [])) ∧
    (∀ f line,
      ((r.offer f line).2 = false → (r.offer f line).1 = r ∧
        ∀ more line', ((r.offerAll more).offer f line').2 = false) ∧
      ((r.offer f line).2 = true → ∃ front back evicted,
        r.trips = front ++ back ++ evicted ∧
        (r.offer f line).1.trips = front ++ .ofOffer (f, line) :: back ∧
        evicted.length = if r.trips.length = capacity then 1 else 0)) ∧
    ∀ more, r.minSpread ≤ (r.offerAll more).minSpread ∧
      r.maxSpread ≤ (r.offerAll more).maxSpread := by
  intro r
  have h : r.InOrder capacity := (inOrder_empty capacity).offerAll offers
  have hpos : ∀ t ∈ r.trips, 0 < t.spread := fun t ht => (h.qualified t ht).1
  refine ⟨⟨h.length_le, h.descending, h.qualified, h.minSpread_eq,
    h.maxSpread_eq, ?_, ?_⟩,
    fun f line => ⟨fun hrefused => ?_, fun htaken => ?_⟩,
    h.spreads_le_offerAll⟩
  · rw [h.minSpread_eq]
    exact RankedTrip.lastSpread_eq_zero hpos
  · rw [h.maxSpread_eq]
    exact RankedTrip.firstSpread_eq_zero hpos
  · have hnot : ¬ r.takes f := by
      rw [← offer_taken_eq line, hrefused]
      exact Bool.false_ne_true
    refine ⟨offer_of_not_takes hnot line, fun more line' => ?_⟩
    rw [offer_taken_eq, Bool.eq_false_iff]
    exact fun hlater => hnot (h.takes_of_takes_later hlater)
  · rw [offer_taken_eq] at htaken
    exact h.offer_taken htaken line

end Ridership

import Ridership.Proofs.RankingPass

/-!
# What may come out of a ranking

A ranking makes nothing up: a trip that it holds was offered, and a trip that is
offered was reported of the line it comes with. And it holds its trips in
descending order at any time, since a trip is put in behind those that are at
least as uncertain and only the end is ever cut off.

Both are kept by one offer, whatever the capacity is and whatever was offered
before. Unlike the closed form of what is held, they ask for no room.
-/

namespace Ridership

open Forecast (Report TripForecast readLine)
open Log (Line Progress)
open Storage (ByteSource)

/-! ## One offer, and all of them -/

section

variable {r : Ranking} {t : RankedTrip}

theorem Ranking.mem_offer {offer : TripForecast × Line}
    (h : t ∈ (r.offer offer.1 offer.2).1.trips) :
    t = .ofOffer offer ∨ t ∈ r.trips := by
  rw [Ranking.offer] at h
  split at h
  · exact RankedTrip.mem_insertInto (List.mem_of_mem_take h)
  · exact .inr h

theorem Ranking.mem_offerAll {offers : List (TripForecast × Line)}
    (h : t ∈ (r.offerAll offers).trips) :
    t ∈ r.trips ∨ ∃ offer ∈ offers, t = .ofOffer offer := by
  induction offers generalizing r with
  | nil => exact .inl h
  | cons offer offers ih =>
      rcases ih h with h | ⟨later, hlater, ht⟩
      · rcases mem_offer h with ht | h
        · exact .inr ⟨offer, List.mem_cons_self, ht⟩
        · exact .inl h
      · exact .inr ⟨later, List.mem_cons_of_mem offer hlater, ht⟩

theorem Ranking.offer_descending (h : RankedTrip.Descending r.trips)
    (offer : TripForecast × Line) :
    RankedTrip.Descending (r.offer offer.1 offer.2).1.trips := by
  rw [Ranking.offer]
  split
  · exact (RankedTrip.insertInto_descending _ h).sublist
      (List.take_sublist _ _)
  · exact h

theorem Ranking.offerAll_descending (h : RankedTrip.Descending r.trips)
    (offers : List (TripForecast × Line)) :
    RankedTrip.Descending (r.offerAll offers).trips := by
  induction offers generalizing r with
  | nil => exact h
  | cons offer offers ih => exact ih (offer_descending h offer)

end

/-! ## A whole pass -/

theorem mem_forecastsOf {reports : List Report} {f : TripForecast} :
    f ∈ forecastsOf reports ↔ .outcome (.forecast f) ∈ reports := by
  rw [forecastsOf, List.mem_filterMap]
  constructor
  · rintro ⟨report, hreport, hf⟩
    match report with
    | .outcome (.forecast g) =>
        obtain rfl : g = f := by simpa using hf
        exact hreport
  · exact fun h => ⟨_, h, rfl⟩

section

variable {source : ByteSource} {settings : Settings} {lines : List Line}
  {trips : List RankedTrip}

/-- A pass that has a result has read all lines. -/
theorem rankLines_ok {total index : Nat} {ranking : Ranking}
    {progress : List Progress}
    (h : (rankLines source settings total ranking progress index lines).2
      = .ok trips) :
    trips
      = (ranking.offerAll (reportedOffers source settings lines)).trips := by
  induction lines generalizing ranking progress index with
  | nil =>
      cases h
      rfl
  | cons line lines ih =>
      by_cases hread : Readable source settings line
      · rw [rankLines_readable hread] at h
        rw [ih h, ← Ranking.offerAll_append]
        simp [reportedOffers]
      · obtain ⟨cause, hcause⟩ : ∃ cause,
            (readLine source settings line).2 = .error (.streamRead cause) :=
          by simpa [Readable] using hread
        rw [rankLines_unreadable hcause] at h
        cases h

theorem interestingTrips_descending
    (h : (interestingTrips source settings lines).2 = .ok trips) :
    RankedTrip.Descending trips := by
  have hempty : RankedTrip.Descending
      (Ranking.empty settings.rankingSize).trips := List.Pairwise.nil
  rw [rankLines_ok h]
  exact Ranking.offerAll_descending hempty _

/-- A trip that comes out of a pass was reported of its line, and has that
line's time. -/
theorem interestingTrips_reported
    (h : (interestingTrips source settings lines).2 = .ok trips)
    {t : RankedTrip} (ht : t ∈ trips) :
    t.line ∈ lines ∧
    ∃ f, .outcome (.forecast f) ∈ (readLine source settings t.line).1 ∧
      t.forecast = { f with systemTime := t.line.systemTime } := by
  rw [rankLines_ok h] at ht
  rcases Ranking.mem_offerAll ht with ht | ⟨offer, hoffer, rfl⟩
  · exact absurd ht List.not_mem_nil
  · obtain ⟨line, hline, hoffer⟩ := List.mem_flatMap.mp hoffer
    obtain ⟨f, hf, rfl⟩ := List.mem_map.mp hoffer
    exact ⟨hline, f, mem_forecastsOf.mp hf, rfl⟩

end

end Ridership

import Ridership.Proofs.QuantileOrder

/-!
# What is probable within a limit, and where a level is reached

A distribution is asked in two ways, by two searches that know nothing of each
other. One goes on while the counts are within a limit and tells the last
probability it has seen. The other goes on while the probabilities are below a
level and tells the count where it stops. In a distribution whose counts and
probabilities both ascend they answer one question: at least as much as a level
is probable within a limit just if the first entry that reaches the level is
within the limit (`le_probabilityFrom_iff`).

Both searches carry something of the entry before, the one its probability and
the other its count, so the inductions are over lists with something in front.
The middle between two counts, which the second search may tell, is not above
the entry where it stops. This is why a limit below the quantile is below that
entry as well, and why the opposite does not hold.
-/

namespace Ridership.Forecast

open Binary64 (value)

/-! ## Distributions -/

/-- The entries are as a producer writes them: counts and probabilities are in
order, and no probability is outside of its range. -/
structure IsDistribution (cdf : List CdfEntry) : Prop where
  ascending : Ascending cdf
  probabilities : cdf.Pairwise fun e f => e.probability ≤ f.probability
  bounds : ∀ entry ∈ cdf, 0.0 ≤ entry.probability ∧ entry.probability ≤ 1.0

/-- The first entry that is as probable as a level asks for. -/
def firstReaching (cdf : List CdfEntry) (level : Float) : Option CdfEntry :=
  cdf.find? fun entry => level ≤ entry.probability

section

variable {cdf rest : List CdfEntry} {level limit a b x low : Float}
  {previous : Option CdfEntry} {entry first : CdfEntry}

theorem firstReaching_cons (entry : CdfEntry) (rest : List CdfEntry)
    (level : Float) :
    firstReaching (entry :: rest) level
      = if level ≤ entry.probability then some entry
        else firstReaching rest level := by
  rw [firstReaching, List.find?_cons]
  split
  · next h => rw [if_pos (of_decide_eq_true h)]
  · next h =>
      rw [if_neg (of_decide_eq_false h)]
      rfl

theorem firstReaching_of_reaches (h : Reaches cdf level) :
    ∃ first, firstReaching cdf level = some first := by
  obtain ⟨entry, hentry, hlevel⟩ := h
  exact Option.isSome_iff_exists.mp
    (List.find?_isSome.mpr ⟨entry, hentry, decide_eq_true hlevel⟩)

theorem mem_of_firstReaching (h : firstReaching cdf level = some first) :
    first ∈ cdf :=
  List.mem_of_find?_eq_some h

/-- What follows an entry is at least as probable as it. -/
structure Follows (low : Float) (cdf : List CdfEntry) : Prop where
  number : low.isNaN = false
  le : ∀ entry ∈ cdf, low ≤ entry.probability
  ascending : Ascending cdf
  probabilities : cdf.Pairwise fun e f => e.probability ≤ f.probability

theorem IsDistribution.follows (h : IsDistribution cdf) :
    Follows 0.0 cdf where
  number := by decide +kernel
  le := fun entry hentry => (h.bounds entry hentry).1
  ascending := h.ascending
  probabilities := h.probabilities

theorem Follows.tail (h : Follows low (entry :: rest)) :
    Follows entry.probability rest where
  number := (Binary64.isNaN_of_le (h.le entry List.mem_cons_self)).2
  le := (List.pairwise_cons.mp h.probabilities).1
  ascending := h.ascending.tail
  probabilities := h.probabilities.tail

/-! ## The search by a limit -/

/-- The probability of the last entry in front that is within a limit, or the
one before all of them. -/
def probabilityFrom (limit low : Float) (cdf : List CdfEntry) : Float :=
  match (cdf.takeWhile fun entry =>
    entry.passengers.toFloat ≤ limit).getLast? with
  | some entry => entry.probability
  | none => low

theorem probabilityFrom_cons (limit low : Float) (entry : CdfEntry)
    (rest : List CdfEntry) :
    probabilityFrom limit low (entry :: rest)
      = if entry.passengers.toFloat ≤ limit then
          probabilityFrom limit entry.probability rest
        else low := by
  by_cases h : entry.passengers.toFloat ≤ limit
  · have htake : ((entry :: rest).takeWhile fun entry =>
        entry.passengers.toFloat ≤ limit)
          = entry :: rest.takeWhile fun entry =>
            entry.passengers.toFloat ≤ limit :=
      List.takeWhile_cons_of_pos (by simpa using h)
    rw [if_pos h, probabilityFrom, probabilityFrom, htake, List.getLast?_cons]
    cases (rest.takeWhile fun entry =>
      entry.passengers.toFloat ≤ limit).getLast? <;> rfl
  · have htake : ((entry :: rest).takeWhile fun entry =>
        entry.passengers.toFloat ≤ limit) = [] :=
      List.takeWhile_cons_of_neg (by simpa using h)
    rw [if_neg h, probabilityFrom, htake]
    rfl

theorem Follows.le_probabilityFrom (h : Follows low cdf) (limit : Float) :
    low ≤ probabilityFrom limit low cdf := by
  induction cdf generalizing low with
  | nil => exact Binary64.le_refl h.number
  | cons entry rest ih =>
      rw [probabilityFrom_cons]
      split
      · exact Binary64.le_trans (h.le entry List.mem_cons_self) (ih h.tail)
      · exact Binary64.le_refl h.number

/-- A greater limit does not make less probable. -/
theorem Follows.probabilityFrom_mono (h : Follows low cdf) (hab : a ≤ b) :
    probabilityFrom a low cdf ≤ probabilityFrom b low cdf := by
  induction cdf generalizing low with
  | nil => exact Binary64.le_refl h.number
  | cons entry rest ih =>
      by_cases ha : entry.passengers.toFloat ≤ a
      · rw [probabilityFrom_cons, probabilityFrom_cons, if_pos ha,
          if_pos (Binary64.le_trans ha hab)]
        exact ih h.tail
      · rw [probabilityFrom_cons, if_neg ha]
        exact h.le_probabilityFrom b

/-- A level that is not reached yet is probable within a limit just if the first
entry that reaches it is within. -/
theorem Follows.le_probabilityFrom_iff (h : Follows low cdf)
    (hlow : low < level) (hfirst : firstReaching cdf level = some first) :
    level ≤ probabilityFrom limit low cdf
      ↔ first.passengers.toFloat ≤ limit := by
  induction cdf generalizing low with
  | nil => cases hfirst
  | cons entry rest ih =>
      rw [firstReaching_cons] at hfirst
      rw [probabilityFrom_cons]
      by_cases hreached : level ≤ entry.probability
      · rw [if_pos hreached] at hfirst
        obtain rfl := Option.some.inj hfirst
        split
        · next hwithin =>
            have hbehind := h.tail.le_probabilityFrom limit
            exact iff_of_true (Binary64.le_trans hreached hbehind) hwithin
        · next hbeyond =>
            exact iff_of_false (Binary64.not_le_of_lt hlow) hbeyond
      · rw [if_neg hreached] at hfirst
        split
        · have hnumber := (Binary64.lt_iff.mp hlow).1.2
          exact ih h.tail
            (Binary64.lt_of_not_le h.tail.number hnumber hreached) hfirst
        · next hbeyond =>
            -- The counts ascend, so the entry that reaches it is beyond as
            -- well.
            refine iff_of_false (Binary64.not_le_of_lt hlow) fun hwithin => ?_
            have hcounts := (List.pairwise_cons.mp h.ascending).1 first
              (mem_of_firstReaching hfirst)
            exact hbeyond
              (Binary64.le_trans (Binary64.count_le_iff.mpr hcounts) hwithin)

/-! ## The search by a level -/

/-- A quantile is not above the entry where its search has stopped. -/
theorem quantileFrom_le_first (hcdf : Ascending (previous.toList ++ cdf))
    (hfirst : firstReaching cdf level = some first)
    (hx : quantileFrom level previous cdf = some x) :
    x ≤ first.passengers.toFloat := by
  induction cdf generalizing previous with
  | nil => cases hx
  | cons entry rest ih =>
      obtain ⟨-, hrest, hbefore⟩ := List.pairwise_append.mp hcdf
      rw [firstReaching_cons] at hfirst
      rw [quantileFrom_cons] at hx
      split at hfirst
      · next hreached =>
          rw [if_pos hreached] at hx
          rw [← Option.some.inj hx, ← Option.some.inj hfirst]
          exact countAt_le (Std.le_refl _) fun before h =>
            hbefore before (Option.mem_toList.mpr h) entry List.mem_cons_self
      · next hbelow =>
          rw [if_neg hbelow] at hx
          exact @ih (some entry) hrest hfirst hx

theorem IsDistribution.zero_le (h : IsDistribution cdf) (limit : Float) :
    0.0 ≤ probabilityAtMost cdf limit :=
  h.follows.le_probabilityFrom limit

/-- Within a limit below a quantile, less than its level is probable. -/
theorem IsDistribution.lt_of_lt_quantile (h : IsDistribution cdf)
    (hlevel : 0.0 < level) (hfirst : firstReaching cdf level = some first)
    (hx : quantile cdf level = .ok x) (hlimit : limit < x) :
    probabilityAtMost cdf limit < level := by
  refine Binary64.lt_of_not_le
    (Binary64.isNaN_of_le (h.zero_le limit)).2
    (Binary64.lt_iff.mp hlevel).1.2 fun hreached => ?_
  have hwithin : first.passengers.toFloat ≤ limit :=
    (h.follows.le_probabilityFrom_iff hlevel hfirst).mp hreached
  have hstop : x ≤ first.passengers.toFloat :=
    @quantileFrom_le_first cdf level x none first h.ascending hfirst
      (quantileFrom_of_quantile hx)
  exact Binary64.not_le_of_lt hlimit (Binary64.le_trans hstop hwithin)

theorem EdgeSummary.overload_of_ofCdf {capacity : Float} {s : EdgeSummary}
    (h : EdgeSummary.ofCdf cdf capacity = .ok s) :
    s.overload = probabilityExceeding cdf capacity := by
  rw [ofCdf] at h
  obtain ⟨_, -, h⟩ := Json.ok_of_bind h
  obtain ⟨_, -, h⟩ := Json.ok_of_bind h
  obtain ⟨_, -, h⟩ := Json.ok_of_bind h
  obtain ⟨_, -, h⟩ := Json.ok_of_bind h
  obtain ⟨_, -, h⟩ := Json.ok_of_bind h
  obtain rfl := Except.ok.inj h
  rfl

/-- What is left of certainty is more than what a level leaves of it. -/
theorem IsDistribution.exceeding_of_lt (h : IsDistribution cdf)
    (hreaches : Reaches cdf level)
    (hless : probabilityAtMost cdf limit < level) :
    1 - value level < 1 - value (probabilityAtMost cdf limit) := by
  obtain ⟨entry, hentry, hlevel⟩ := hreaches
  have hone : value level ≤ 1 := by
    rw [← Binary64.value_one]
    exact (Binary64.le_iff.mp
      (Binary64.le_trans hlevel (h.bounds entry hentry).2)).2
  have hzero : 0 ≤ value (probabilityAtMost cdf limit) := by
    rw [← Binary64.value_zero]
    exact (Binary64.le_iff.mp (h.zero_le limit)).2
  have hvalues := (Binary64.lt_iff.mp hless).2
  generalize value (probabilityAtMost cdf limit) = p at *
  generalize value level = q at *
  lift q to ℝ using
    ⟨ne_top_of_le_ne_top (EReal.coe_ne_top 1) hone, ne_bot_of_gt hvalues⟩
  lift p to ℝ using
    ⟨ne_top_of_lt hvalues, ne_bot_of_le_ne_bot EReal.zero_ne_bot hzero⟩
  have hreal : p < q := EReal.coe_lt_coe_iff.mp hvalues
  have hleft : 1 - q < 1 - p := sub_lt_sub_left hreal 1
  exact_mod_cast hleft

end

/-- In a distribution as it is written, at least as much as a level is probable
within a limit just if the limit takes in the first entry that reaches the
level. Within a limit below the quantile, less is probable, so that an edge with
such a capacity exceeds it, but for rounding, with more than what the level
leaves. And a greater limit never makes less probable. -/
theorem limit_takes_in_level {cdf : List CdfEntry} (hcdf : IsDistribution cdf) :
    (∀ level, 0.0 < level → Reaches cdf level →
      ∃ first x,
        cdf.find? (fun entry => level ≤ entry.probability) = some first ∧
        quantile cdf level = .ok x ∧
        (∀ limit, level ≤ probabilityAtMost cdf limit
          ↔ first.passengers.toFloat ≤ limit) ∧
        (∀ limit, limit < x → probabilityAtMost cdf limit < level) ∧
        ∀ e edge s capacity, e.cdf = cdf →
          usableCapacity e.capacity = some capacity →
          Edge.summarize e = .ok edge → edge.summary = some s →
          capacity < x →
          s.overload = 1.0 - probabilityAtMost cdf capacity ∧
          1 - value level < 1 - value (probabilityAtMost cdf capacity)) ∧
    ∀ a b, a ≤ b → probabilityAtMost cdf a ≤ probabilityAtMost cdf b := by
  refine ⟨fun level hlevel hreaches => ?_,
    fun a b hab => hcdf.follows.probabilityFrom_mono hab⟩
  obtain ⟨first, hfirst⟩ := firstReaching_of_reaches hreaches
  obtain ⟨x, hx⟩ := quantile_of_reaches hreaches
  refine ⟨first, x, hfirst, hx,
    fun limit => hcdf.follows.le_probabilityFrom_iff hlevel hfirst,
    fun limit => hcdf.lt_of_lt_quantile hlevel hfirst hx, ?_⟩
  intro e edge s capacity he hcapacity hedge hs hbelow
  refine ⟨?_, hcdf.exceeding_of_lt hreaches
    (hcdf.lt_of_lt_quantile hlevel hfirst hx hbelow)⟩
  rcases Edge.summarize_cases hedge with
    ⟨hnone, -⟩ | ⟨c, t, hc, hofCdf, rfl⟩
  · rw [hnone] at hcapacity
    cases hcapacity
  · obtain rfl : t = s := Option.some.inj hs
    obtain rfl : c = capacity := Option.some.inj (hc.symm.trans hcapacity)
    rw [EdgeSummary.overload_of_ofCdf hofCdf, he]
    rfl

/-- Steps of equal counts and steps of equal probabilities. -/
def levelSteps : List CdfEntry :=
  [⟨10, 0.25⟩, ⟨10, 0.5⟩, ⟨20, 0.5⟩, ⟨30, 1.0⟩]

/-- The quantile lies between two entries, and the limit between the quantile
and the first of them. -/
theorem limit_takes_in_level_of_steps :
    IsDistribution levelSteps ∧ 0.0 < (0.75 : Float) ∧
    Reaches levelSteps 0.75 ∧
    ∃ x, quantile levelSteps 0.75 = .ok x ∧ 22.0 < x ∧
      probabilityAtMost levelSteps 22.0 < 0.75 ∧
      probabilityAtMost levelSteps 22.0 ≤ probabilityAtMost levelSteps 30.0 :=
    by
  have hsteps : IsDistribution levelSteps :=
    ⟨by decide +kernel, by decide +kernel, by decide +kernel⟩
  have hlevel : 0.0 < (0.75 : Float) := by decide +kernel
  have hreaches : Reaches levelSteps 0.75 := by decide +kernel
  obtain ⟨hlevels, hmono⟩ := limit_takes_in_level hsteps
  obtain ⟨-, x, -, hx, -, hbelow, -⟩ := hlevels 0.75 hlevel hreaches
  have hless : (22.0 : Float) < x := by
    have habove : (quantileFrom 0.75 none levelSteps).all
        (fun x => decide (22.0 < x)) = true := by decide +kernel
    rw [quantileFrom_of_quantile hx] at habove
    exact of_decide_eq_true habove
  exact ⟨hsteps, hlevel, hreaches, x, hx, hless, hbelow 22.0 hless,
    hmono 22.0 30.0 (by decide +kernel)⟩

end Ridership.Forecast

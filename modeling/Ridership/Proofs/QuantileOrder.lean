import Ridership.Forecast.Edge
import Ridership.Proofs.ExactCounts
import Ridership.Proofs.RecordKeys

/-!
# Quantiles are in order

Whether an entry meets a level or is beyond it, the search for a quantile stops
there. So it stops at the first entry that reaches the level, and what the
level decides besides is only which of two counts it is: that of the entry, or
the middle between it and the one before (`countAt`).

A greater level is reached later, if at all. For a distribution with counts in
ascending order this makes the quantiles ascend with their levels. If the two
searches stop at different entries, the count of the first of these lies between
the results. If they stop at the same one, then the greater level may have met
what the smaller one was below, and the middle is not above the entry's count;
the other way around it would be the smaller level that is met, and the greater
one would be beyond the entry.
-/

namespace Ridership.Forecast

open Binary64 (value)

/-! ## Where a search stops -/

/-- Some entry is as probable as a level asks for. -/
def Reaches (cdf : List CdfEntry) (level : Float) : Prop :=
  ∃ entry ∈ cdf, level ≤ entry.probability

instance (cdf : List CdfEntry) (level : Float) :
    Decidable (Reaches cdf level) :=
  inferInstanceAs (Decidable (∃ entry ∈ cdf, _))

/-- The middle between the entry before and an entry, or the entry itself. -/
def middle (previous : Option CdfEntry) (entry : CdfEntry) : Float :=
  match previous with
  | some before => midpoint before.passengers entry.passengers
  | none => entry.passengers.toFloat

/-- The count at an entry that reaches a level. -/
def countAt (level : Float) (previous : Option CdfEntry) (entry : CdfEntry) :
    Float :=
  if entry.probability == level then entry.passengers.toFloat
  else middle previous entry

section

variable {cdf : List CdfEntry} {level a b x y : Float}
  {previous : Option CdfEntry} {entry : CdfEntry} {n : UInt32}

theorem quantileFrom_cons (level : Float) (previous : Option CdfEntry)
    (entry : CdfEntry) (rest : List CdfEntry) :
    quantileFrom level previous (entry :: rest)
      = if level ≤ entry.probability then some (countAt level previous entry)
        else quantileFrom level (some entry) rest := by
  have hstops := Binary64.beq_or_lt_iff (x := entry.probability) (y := level)
  have hcons : quantileFrom level previous (entry :: rest)
      = if entry.probability == level then some entry.passengers.toFloat
        else if entry.probability > level then some (middle previous entry)
        else quantileFrom level (some entry) rest := by
    cases previous <;> rfl
  rw [hcons, countAt]
  by_cases hmet : (entry.probability == level) = true
  · rw [if_pos hmet, if_pos hmet, if_pos (hstops.mp (.inl hmet))]
  · rw [if_neg hmet, if_neg hmet]
    by_cases hbeyond : level < entry.probability
    · rw [if_pos hbeyond, if_pos (hstops.mp (.inr hbeyond))]
    · rw [if_neg hbeyond, if_neg fun h => (hstops.mpr h).elim hmet hbeyond]

theorem quantileFrom_isSome (level : Float) (previous : Option CdfEntry)
    (cdf : List CdfEntry) :
    (quantileFrom level previous cdf).isSome ↔ Reaches cdf level := by
  induction cdf generalizing previous with
  | nil => simp [quantileFrom, Reaches]
  | cons entry rest ih =>
      rw [quantileFrom_cons]
      split
      · next h => simp [Reaches, h]
      · next h =>
          rw [ih]
          simp [Reaches, h]

theorem quantile_of_reaches (h : Reaches cdf level) :
    ∃ x, quantile cdf level = .ok x := by
  obtain ⟨x, hx⟩ := Option.isSome_iff_exists.mp
    ((quantileFrom_isSome level none cdf).mpr h)
  exact ⟨x, by rw [quantile, hx]⟩

theorem quantile_of_not_reaches (h : ¬ Reaches cdf level) :
    quantile cdf level = .error (.invalidCdf level) := by
  rw [← quantileFrom_isSome level none, Option.not_isSome_iff_eq_none] at h
  rw [quantile, h]

theorem quantileFrom_of_quantile (h : quantile cdf level = .ok x) :
    quantileFrom level none cdf = some x := by
  rw [quantile] at h
  split at h
  · next hx => rw [hx, Except.ok.inj h]
  · cases h

theorem quantile_ok_iff :
    (∃ x, quantile cdf level = .ok x) ↔ Reaches cdf level := by
  refine ⟨fun ⟨x, hx⟩ => ?_, quantile_of_reaches⟩
  by_contra h
  rw [quantile_of_not_reaches h] at hx
  cases hx

theorem Reaches.of_le (h : Reaches cdf b) (hab : a ≤ b) : Reaches cdf a := by
  obtain ⟨entry, hentry, hb⟩ := h
  exact ⟨entry, hentry, Binary64.le_trans hab hb⟩

/-! ## Bounds -/

theorem le_middle (hentry : n ≤ entry.passengers)
    (hprevious : ∀ before ∈ previous, n ≤ before.passengers) :
    n.toFloat ≤ middle previous entry := by
  cases previous with
  | none => exact Binary64.count_le_iff.mpr hentry
  | some before =>
      exact Binary64.count_le_midpoint (hprevious before rfl) hentry

theorem middle_le (hentry : entry.passengers ≤ n)
    (hprevious : ∀ before ∈ previous, before.passengers ≤ n) :
    middle previous entry ≤ n.toFloat := by
  cases previous with
  | none => exact Binary64.count_le_iff.mpr hentry
  | some before =>
      exact Binary64.midpoint_le_count (hprevious before rfl) hentry

theorem le_countAt (hentry : n ≤ entry.passengers)
    (hprevious : ∀ before ∈ previous, n ≤ before.passengers) :
    n.toFloat ≤ countAt level previous entry := by
  rw [countAt]
  split
  · exact Binary64.count_le_iff.mpr hentry
  · exact le_middle hentry hprevious

theorem countAt_le (hentry : entry.passengers ≤ n)
    (hprevious : ∀ before ∈ previous, before.passengers ≤ n) :
    countAt level previous entry ≤ n.toFloat := by
  rw [countAt]
  split
  · exact Binary64.count_le_iff.mpr hentry
  · exact middle_le hentry hprevious

theorem le_quantileFrom (hentries : ∀ entry ∈ cdf, n ≤ entry.passengers)
    (hprevious : ∀ before ∈ previous, n ≤ before.passengers)
    (h : quantileFrom level previous cdf = some x) : n.toFloat ≤ x := by
  induction cdf generalizing previous with
  | nil => cases h
  | cons entry rest ih =>
      obtain ⟨hentry, hrest⟩ := List.forall_mem_cons.mp hentries
      rw [quantileFrom_cons] at h
      split at h
      · rw [← Option.some.inj h]
        exact le_countAt hentry hprevious
      · exact ih hrest (by rintro _ ⟨⟩; exact hentry) h

theorem quantileFrom_le (hentries : ∀ entry ∈ cdf, entry.passengers ≤ n)
    (hprevious : ∀ before ∈ previous, before.passengers ≤ n)
    (h : quantileFrom level previous cdf = some x) : x ≤ n.toFloat := by
  induction cdf generalizing previous with
  | nil => cases h
  | cons entry rest ih =>
      obtain ⟨hentry, hrest⟩ := List.forall_mem_cons.mp hentries
      rw [quantileFrom_cons] at h
      split at h
      · rw [← Option.some.inj h]
        exact countAt_le hentry hprevious
      · exact ih hrest (by rintro _ ⟨⟩; exact hentry) h

/-! ## Ascending counts -/

/-- The counts are in order. -/
def Ascending (cdf : List CdfEntry) : Prop :=
  cdf.Pairwise fun e f => e.passengers ≤ f.passengers

instance (cdf : List CdfEntry) : Decidable (Ascending cdf) :=
  inferInstanceAs (Decidable (cdf.Pairwise _))

/-- Where both levels stop, the greater one does not give less. -/
theorem countAt_mono (hab : a ≤ b) (hb : b ≤ entry.probability)
    (hprevious : ∀ before ∈ previous, before.passengers ≤ entry.passengers) :
    countAt a previous entry ≤ countAt b previous entry := by
  by_cases hmet : (entry.probability == b) = true
  · rw [countAt.eq_def b, if_pos hmet]
    exact countAt_le (Std.le_refl _) hprevious
  · have hbeyond : (entry.probability == a) ≠ true := fun ha =>
      hmet (Binary64.beq_of_le ha hab hb)
    rw [countAt, countAt, if_neg hmet, if_neg hbeyond]
    have hbound := middle_le (Std.le_refl _) hprevious
    exact Binary64.le_refl (Binary64.isNaN_of_le hbound).1

theorem quantileFrom_mono (hcdf : Ascending (previous.toList ++ cdf))
    (hab : a ≤ b) (hx : quantileFrom a previous cdf = some x)
    (hy : quantileFrom b previous cdf = some y) : x ≤ y := by
  induction cdf generalizing previous with
  | nil => cases hx
  | cons entry rest ih =>
      obtain ⟨-, hrest, hbefore⟩ := List.pairwise_append.mp hcdf
      have hprevious : ∀ before ∈ previous,
          before.passengers ≤ entry.passengers := fun before h =>
        hbefore before (Option.mem_toList.mpr h) entry List.mem_cons_self
      rw [quantileFrom_cons] at hx hy
      by_cases ha : a ≤ entry.probability
      · rw [if_pos ha] at hx
        rw [← Option.some.inj hx]
        by_cases hb : b ≤ entry.probability
        · rw [if_pos hb] at hy
          rw [← Option.some.inj hy]
          exact countAt_mono hab hb hprevious
        · -- The smaller level stops here, the greater one further on.
          rw [if_neg hb] at hy
          have hhere : countAt a previous entry ≤ entry.passengers.toFloat :=
            countAt_le (Std.le_refl _) hprevious
          have hbehind : entry.passengers.toFloat ≤ y :=
            le_quantileFrom (List.pairwise_cons.mp hrest).1
              (by rintro _ ⟨⟩; exact Std.le_refl _) hy
          exact Binary64.le_trans hhere hbehind
      · have hb : ¬ b ≤ entry.probability :=
          fun h => ha (Binary64.le_trans hab h)
        rw [if_neg ha] at hx
        rw [if_neg hb] at hy
        exact @ih (some entry) hrest hx hy

end

/-! ## What a quantile can be -/

/-- Exactly the count of an entry, or the middle of those of two neighbours. -/
inductive IsBetween (cdf : List CdfEntry) (x : Float) : Prop
  | count {entry : CdfEntry} (hentry : entry ∈ cdf)
      (hx : value x = ((entry.passengers.toNat : ℝ) : EReal))
  | middle {before entry : CdfEntry} (hnext : [before, entry] <:+: cdf)
      (hx : value x = (((before.passengers.toNat + entry.passengers.toNat) / 2
        : ℝ) : EReal))

theorem quantileFrom_isBetween {level x : Float} {previous : Option CdfEntry}
    {cdf : List CdfEntry} (h : quantileFrom level previous cdf = some x) :
    IsBetween (previous.toList ++ cdf) x := by
  induction cdf generalizing previous with
  | nil => cases h
  | cons entry rest ih =>
      rw [quantileFrom_cons] at h
      split at h
      · rw [← Option.some.inj h, countAt]
        have hentry : IsBetween (previous.toList ++ entry :: rest)
            entry.passengers.toFloat :=
          .count (by simp) (Binary64.value_count _)
        split
        · exact hentry
        · cases previous with
          | none => exact hentry
          | some before =>
              exact .middle ⟨[], rest, rfl⟩ (Binary64.value_midpoint _ _)
      · have hrest : IsBetween (entry :: rest) x :=
          @ih (some entry) h
        cases hrest with
        | count hf hx => exact .count (List.mem_append_right _ hf) hx
        | middle hfg hx =>
            exact .middle (hfg.trans (List.suffix_append _ _).isInfix) hx

/-! ## The quantiles of a summary -/

/-- The levels whose quantiles make a summary. -/
def summaryLevels : List Float := [0.05, 0.20, 0.50, 0.80, 0.95]

theorem summaryLevels_ascending : summaryLevels.Pairwise (· ≤ ·) := by
  decide +kernel

/-- The quantiles of a summary, by their levels. -/
def EdgeSummary.quantiles (s : EdgeSummary) : List Float :=
  [s.q5, s.q20, s.q50, s.q80, s.q95]

/-- The count of the first entry. -/
def firstCount (cdf : List CdfEntry) : UInt32 :=
  (cdf.head?.map CdfEntry.passengers).getD 0

/-- The count of the last entry. -/
def lastCount (cdf : List CdfEntry) : UInt32 :=
  (cdf.getLast?.map CdfEntry.passengers).getD 0

theorem EdgeSummary.ofCdf_quantiles (cdf : List CdfEntry) (capacity : Float) :
    (EdgeSummary.ofCdf cdf capacity).map EdgeSummary.quantiles
      = summaryLevels.mapM (quantile cdf) := by
  simp only [EdgeSummary.ofCdf, summaryLevels, List.mapM_cons, List.mapM_nil]
  rcases quantile cdf 0.05 with error | q5
  · rfl
  rcases quantile cdf 0.20 with error | q20
  · rfl
  rcases quantile cdf 0.50 with error | q50
  · rfl
  rcases quantile cdf 0.80 with error | q80
  · rfl
  rcases quantile cdf 0.95 with error | q95
  · rfl
  rfl

/-- Its quantiles are those of the distribution, its counts the outermost. -/
theorem EdgeSummary.ofCdf_ok {cdf : List CdfEntry} {capacity : Float}
    {s : EdgeSummary} (h : EdgeSummary.ofCdf cdf capacity = .ok s) :
    summaryLevels.mapM (quantile cdf) = .ok s.quantiles ∧
    s.leastPassengers = firstCount cdf ∧ s.mostPassengers = lastCount cdf := by
  refine ⟨by rw [← ofCdf_quantiles cdf capacity, h]; rfl, ?_⟩
  rw [ofCdf] at h
  obtain ⟨_, -, h⟩ := Json.ok_of_bind h
  obtain ⟨_, -, h⟩ := Json.ok_of_bind h
  obtain ⟨_, -, h⟩ := Json.ok_of_bind h
  obtain ⟨_, -, h⟩ := Json.ok_of_bind h
  obtain ⟨_, -, h⟩ := Json.ok_of_bind h
  obtain rfl := Except.ok.inj h
  exact ⟨rfl, rfl⟩

section

variable {cdf : List CdfEntry} (hcdf : Ascending cdf)

include hcdf

theorem firstCount_le : ∀ entry ∈ cdf, firstCount cdf ≤ entry.passengers := by
  cases cdf with
  | nil => exact List.forall_mem_nil _
  | cons first rest =>
      obtain ⟨hrest, -⟩ := List.pairwise_cons.mp hcdf
      exact List.forall_mem_cons.mpr ⟨Std.le_refl _, hrest⟩

theorem le_lastCount : ∀ entry ∈ cdf, entry.passengers ≤ lastCount cdf := by
  rcases List.eq_nil_or_concat' cdf with rfl | ⟨front, last, rfl⟩
  · exact List.forall_mem_nil _
  · obtain ⟨-, -, hfront⟩ := List.pairwise_append.mp hcdf
    have hlast : lastCount (front ++ [last]) = last.passengers := by
      rw [lastCount, List.getLast?_concat]
      rfl
    rw [hlast]
    exact List.forall_mem_append.mpr
      ⟨fun entry h => hfront entry h last (List.mem_singleton_self _),
        List.forall_mem_singleton.mpr (Std.le_refl _)⟩

theorem firstCount_le_lastCount : firstCount cdf ≤ lastCount cdf := by
  cases cdf with
  | nil => exact Std.le_refl _
  | cons first rest => exact le_lastCount hcdf first List.mem_cons_self

theorem quantile_bounds {level x : Float} (h : quantile cdf level = .ok x) :
    (firstCount cdf).toFloat ≤ x ∧ x ≤ (lastCount cdf).toFloat := by
  have hx := quantileFrom_of_quantile h
  exact ⟨le_quantileFrom (firstCount_le hcdf) (by simp) hx,
    quantileFrom_le (le_lastCount hcdf) (by simp) hx⟩

theorem quantile_mono {a b x y : Float} (hab : a ≤ b)
    (hx : quantile cdf a = .ok x) (hy : quantile cdf b = .ok y) : x ≤ y :=
  @quantileFrom_mono cdf a b x y none hcdf hab (quantileFrom_of_quantile hx)
    (quantileFrom_of_quantile hy)

/-- Quantiles taken by ascending levels ascend. -/
theorem quantiles_mono {levels quantiles : List Float}
    (hlevels : levels.Pairwise (· ≤ ·))
    (h : levels.mapM (quantile cdf) = .ok quantiles) :
    quantiles.Pairwise (· ≤ ·) := by
  induction levels generalizing quantiles with
  | nil =>
      obtain rfl : [] = quantiles := Except.ok.inj h
      exact .nil
  | cons level levels ih =>
      obtain ⟨hlevel, hmore⟩ := List.pairwise_cons.mp hlevels
      rw [List.mapM_cons] at h
      obtain ⟨x, hx, h⟩ := Json.ok_of_bind h
      obtain ⟨more, hwalk, h⟩ := Json.ok_of_bind h
      obtain rfl : x :: more = quantiles := Except.ok.inj h
      have hfirst : ∀ y ∈ more, x ≤ y :=
        (Json.forall_mem_of_mapM (Q := fun _ => True) (fun b hb y hy =>
          iff_true_intro (quantile_mono hcdf (hlevel b hb) hx hy)) hwalk).mpr
          fun _ _ => trivial
      exact .cons hfirst (ih hmore hwalk)

/-- From the least count over the quantiles to the greatest count, everything
in a summary ascends. -/
theorem EdgeSummary.ascends {capacity : Float} {s : EdgeSummary}
    (h : EdgeSummary.ofCdf cdf capacity = .ok s) :
    (s.leastPassengers.toFloat :: s.quantiles
      ++ [s.mostPassengers.toFloat]).Pairwise (· ≤ ·) := by
  obtain ⟨hquantiles, hleast, hmost⟩ := EdgeSummary.ofCdf_ok h
  have hbounds : ∀ x ∈ s.quantiles,
      (firstCount cdf).toFloat ≤ x ∧ x ≤ (lastCount cdf).toFloat :=
    (Json.forall_mem_of_mapM (Q := fun _ => True) (fun _ _ x hx =>
      iff_true_intro (quantile_bounds hcdf hx)) hquantiles).mpr
      fun _ _ => trivial
  have hmiddle := quantiles_mono hcdf summaryLevels_ascending hquantiles
  obtain ⟨hfirst, hlast⟩ := hbounds s.q5 List.mem_cons_self
  rw [hleast, hmost, List.cons_append, List.pairwise_cons,
    List.pairwise_append]
  refine ⟨List.forall_mem_append.mpr ⟨fun x hx => (hbounds x hx).1, ?_⟩,
    hmiddle, List.pairwise_singleton _ _, fun x hx => ?_⟩
  · exact List.forall_mem_singleton.mpr (Binary64.le_trans hfirst hlast)
  · exact List.forall_mem_singleton.mpr (hbounds x hx).2

end

/-- An edge is summed up by what its distribution says for its capacity, or it
has no usable capacity and passes. -/
theorem Edge.summarize_cases {e : RawEdge} {edge : Edge}
    (h : Edge.summarize e = .ok edge) :
    (usableCapacity e.capacity = none ∧ edge = unsummarized e) ∨
    ∃ capacity s, usableCapacity e.capacity = some capacity ∧
      EdgeSummary.ofCdf e.cdf capacity = .ok s ∧
      edge = { unsummarized e with summary := some s } := by
  rw [summarize] at h
  split at h
  · next hcapacity => exact .inl ⟨hcapacity, (Except.ok.inj h).symm⟩
  · next capacity hcapacity =>
      obtain ⟨s, hs, h⟩ := Json.ok_of_bind h
      exact .inr ⟨capacity, s, hcapacity, hs, (Except.ok.inj h).symm⟩

/-- For a distribution with ascending counts, a level has a quantile just if
some entry reaches it, and quantiles ascend with their levels, between the
outermost counts. So a summary is in order throughout, and its spread is the
difference of the counts. -/
theorem quantiles_ascend {cdf : List CdfEntry} (hcdf : Ascending cdf) :
    (∀ b, (∃ y, quantile cdf b = .ok y) ↔
      ∃ entry ∈ cdf, b ≤ entry.probability) ∧
    (∀ a b y, a ≤ b → quantile cdf b = .ok y →
      ∃ x first last, quantile cdf a = .ok x ∧
        cdf.head? = some first ∧ cdf.getLast? = some last ∧
        first.passengers.toFloat ≤ x ∧ x ≤ y ∧
        y ≤ last.passengers.toFloat) ∧
    (∀ level x, quantile cdf level = .ok x → IsBetween cdf x) ∧
    ∀ e edge s, e.cdf = cdf → Edge.summarize e = .ok edge →
      edge.summary = some s →
      s.leastPassengers.toFloat ≤ s.q5 ∧ s.q5 ≤ s.q20 ∧ s.q20 ≤ s.q50 ∧
      s.q50 ≤ s.q80 ∧ s.q80 ≤ s.q95 ∧ s.q95 ≤ s.mostPassengers.toFloat ∧
      (s.spread : Int)
        = s.mostPassengers.toNat - s.leastPassengers.toNat := by
  refine ⟨fun b => quantile_ok_iff, fun a b y hab hy => ?_,
    fun level x hx => ?_, fun e edge s he hedge hs => ?_⟩
  · have hreaches := quantile_ok_iff.mp ⟨y, hy⟩
    obtain ⟨x, hx⟩ := quantile_of_reaches (hreaches.of_le hab)
    have hne : cdf ≠ [] := by
      rintro rfl
      obtain ⟨entry, hentry, -⟩ := hreaches
      cases hentry
    have hfirst : firstCount cdf = (cdf.head hne).passengers := by
      rw [firstCount, List.head?_eq_some_head hne]
      rfl
    have hlast : lastCount cdf = (cdf.getLast hne).passengers := by
      rw [lastCount, List.getLast?_eq_some_getLast hne]
      rfl
    refine ⟨x, cdf.head hne, cdf.getLast hne, hx, List.head?_eq_some_head hne,
      List.getLast?_eq_some_getLast hne, ?_, quantile_mono hcdf hab hx hy, ?_⟩
    · rw [← hfirst]
      exact (quantile_bounds hcdf hx).1
    · rw [← hlast]
      exact (quantile_bounds hcdf hy).2
  · exact @quantileFrom_isBetween level x none _ (quantileFrom_of_quantile hx)
  · subst he
    rcases Edge.summarize_cases hedge with
      ⟨-, rfl⟩ | ⟨capacity, t, -, hofCdf, rfl⟩
    · cases hs
    · have ht : t = s := Option.some.inj hs
      rw [ht] at hofCdf
      obtain ⟨-, hleast, hmost⟩ := EdgeSummary.ofCdf_ok hofCdf
      have hchain := (EdgeSummary.ascends hcdf hofCdf).isChain
      have hcounts : s.leastPassengers.toNat ≤ s.mostPassengers.toNat := by
        rw [hleast, hmost]
        exact firstCount_le_lastCount hcdf
      have hspread : (s.spread : Int)
          = s.mostPassengers.toNat - s.leastPassengers.toNat := by
        rw [EdgeSummary.spread]
        omega
      simpa [EdgeSummary.quantiles, hspread, and_assoc] using hchain

/-- Three steps with ascending counts. -/
def threeSteps : List CdfEntry := [⟨10, 0.2⟩, ⟨20, 0.5⟩, ⟨30, 1.0⟩]

theorem quantiles_ascend_of_three : Ascending threeSteps ∧
    ∃ x y, quantile threeSteps 0.2 = .ok x ∧ quantile threeSteps 0.95 = .ok y ∧
      x ≤ y := by
  have hascending : Ascending threeSteps := by decide +kernel
  obtain ⟨hreached, hmono, -, -⟩ := quantiles_ascend hascending
  obtain ⟨y, hy⟩ := (hreached 0.95).mpr (by decide +kernel)
  obtain ⟨x, _, _, hx, -, -, -, hxy, -⟩ :=
    hmono 0.2 0.95 y (by decide +kernel) hy
  exact ⟨hascending, x, y, hx, hy, hxy⟩

end Ridership.Forecast

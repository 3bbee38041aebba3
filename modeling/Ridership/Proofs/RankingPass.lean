import Ridership.Proofs.RankingForm

/-!
# Ranking the trips of a whole log

Three kinds of failure meet in a pass over the lines of a log, and they cost
differently much. A trip whose distributions fall short costs itself. A line
that does not read costs what comes after the fault on that line; the trips
before it stay offered. Bytes that cannot be had cost everything: the pass ends
there, and no trip of any line comes out.

So there are two ways for a pass to go. Without a line of the third kind, its
result is one ranking that was offered all reported forecasts in turn. With
one, nothing counts but which line is the first of them, and the pass is the
same whatever stands behind it.
-/

namespace Ridership

open Forecast (ForecastError Outcome Report TripForecast readLine)
open Log (Line Progress)
open Storage (ByteSource)

/-! ## Offering what is reported -/

/-- The forecasts among some reports. -/
def forecastsOf (reports : List Report) : List TripForecast :=
  reports.filterMap fun
    | .outcome (.forecast f) => some f
    | _ => none

theorem Ranking.offerAll_append (r : Ranking)
    (offers more : List (TripForecast × Line)) :
    r.offerAll (offers ++ more) = (r.offerAll offers).offerAll more :=
  List.foldl_append

/-- Rejected trips, progress and the end of a line offer nothing. -/
theorem Ranking.offerReports_eq (r : Ranking) (line : Line)
    (reports : List Report) :
    r.offerReports line reports
      = r.offerAll ((forecastsOf reports).map fun f => (f, line)) := by
  induction reports generalizing r with
  | nil => rfl
  | cons report reports ih =>
      match report with
      | .outcome (.forecast f) => exact ih (r.offer f line).1
      | .outcome (.rejected _ _) | .progress _ _ | .done => exact ih r

section

variable (source : ByteSource) (settings : Settings)

/-- Whether the bytes of a line can be had, whatever they say. -/
def Readable (line : Line) : Prop :=
  ∀ cause, (readLine source settings line).2 ≠ .error (.streamRead cause)

instance (line : Line) : Decidable (Readable source settings line) :=
  match h : (readLine source settings line).2 with
  | .error (.streamRead cause) => .isFalse fun hread => hread cause h
  | .error (.malformedRecord _ _) | .error (.invalidCdf _) | .ok () =>
      .isTrue fun cause hread => by
        rw [h] at hread
        exact absurd hread (by simp)

/-- All forecasts that are reported of some lines, each with its line, in the
order of the reports. -/
def reportedOffers (lines : List Line) : List (TripForecast × Line) :=
  lines.flatMap fun line =>
    (forecastsOf (readLine source settings line).1).map fun f => (f, line)

/-- The progress told before each of so many lines, from the `index`-th on. -/
def toldFrom (index count total : Nat) : List Progress :=
  (List.range' index count).map fun i => ⟨i, total⟩

end

/-! ## One line -/

section

variable {source : ByteSource} {settings : Settings} {line : Line}
  {total index : Nat} {ranking : Ranking} {progress : List Progress}

theorem rankLines_readable (h : Readable source settings line)
    (rest : List Line) :
    rankLines source settings total ranking progress index (line :: rest)
      = rankLines source settings total
          (ranking.offerAll (reportedOffers source settings [line]))
          (⟨index, total⟩ :: progress) (index + 1) rest := by
  have hoffers : reportedOffers source settings [line]
      = (forecastsOf (readLine source settings line).1).map
          fun f => (f, line) := by
    simp [reportedOffers]
  rw [hoffers, ← Ranking.offerReports_eq, rankLines]
  split
  · next cause hread => exact absurd (congrArg Prod.snd hread) (h cause)
  · next hread => rw [hread]

theorem rankLines_unreadable {cause : Storage.Fault}
    (h : (readLine source settings line).2 = .error (.streamRead cause))
    (rest : List Line) :
    rankLines source settings total ranking progress index (line :: rest)
      = ((⟨index, total⟩ :: progress).reverse,
        .error (.streamRead cause)) := by
  rw [rankLines]
  split
  · next cause' hread =>
      rw [hread] at h
      cases h
      rfl
  · next hstream hread =>
      exact absurd ((congrArg Prod.snd hread).symm.trans h)
        (hstream cause)

/-! ## All lines -/

theorem rankLines_append {lines : List Line}
    (h : ∀ line ∈ lines, Readable source settings line) (rest : List Line) :
    rankLines source settings total ranking progress index (lines ++ rest)
      = rankLines source settings total
          (ranking.offerAll (reportedOffers source settings lines))
          ((toldFrom index lines.length total).reverse ++ progress)
          (index + lines.length) rest := by
  induction lines generalizing ranking progress index with
  | nil => rfl
  | cons line lines ih =>
      rw [List.cons_append, rankLines_readable (h line List.mem_cons_self),
        ih fun l hl => h l (List.mem_cons_of_mem line hl),
        ← Ranking.offerAll_append]
      have hoffers : reportedOffers source settings [line]
            ++ reportedOffers source settings lines
          = reportedOffers source settings (line :: lines) := by
        simp [reportedOffers]
      have htold : (toldFrom (index + 1) lines.length total).reverse
            ++ ⟨index, total⟩ :: progress
          = (toldFrom index (line :: lines).length total).reverse
            ++ progress := by
        simp [toldFrom, List.range'_succ]
      rw [hoffers, htold, List.length_cons, Nat.add_assoc,
        Nat.add_comm 1]

theorem interestingTrips_readable {lines : List Line}
    (h : ∀ line ∈ lines, Readable source settings line) :
    interestingTrips source settings lines
      = ((List.range lines.length).map fun i => ⟨i, lines.length⟩,
        .ok ((Ranking.empty settings.rankingSize).offerAll
          (reportedOffers source settings lines)).trips) := by
  have hpass : rankLines source settings lines.length
      (.empty settings.rankingSize) [] 0 (lines ++ []) = _ :=
    rankLines_append h []
  rw [List.append_nil] at hpass
  rw [interestingTrips, hpass, rankLines, List.append_nil,
    List.reverse_reverse, toldFrom, List.range_eq_range']

/-- The first line whose bytes cannot be had is the last one read. -/
theorem interestingTrips_unreadable {before : List Line}
    {cause : Storage.Fault}
    (hbefore : ∀ earlier ∈ before, Readable source settings earlier)
    (hline : (readLine source settings line).2 = .error (.streamRead cause))
    (after : List Line) :
    interestingTrips source settings (before ++ line :: after)
      = ((List.range (before.length + 1)).map
          fun i => ⟨i, (before ++ line :: after).length⟩,
        .error (.streamRead cause)) := by
  rw [interestingTrips, rankLines_append hbefore,
    rankLines_unreadable hline]
  simp [toldFrom, List.range_eq_range', List.range'_concat]

/-- What a line gives depends on the bytes of the line, and on how many there
should be, and on nothing else of the log. -/
theorem readLine_of_slice {source' : ByteSource} {line' : Line}
    (hlength : line'.bodyLength = line.bodyLength)
    (hslice : source'.slice line'.start line'.stop
      = source.slice line.start line.stop) :
    readLine source' settings line' = readLine source settings line := by
  rw [readLine, readLine, hslice, hlength]

theorem readLine_congr {source' : ByteSource}
    (h : source'.slice line.start line.stop
      = source.slice line.start line.stop) :
    readLine source' settings line = readLine source settings line :=
  readLine_of_slice rfl h

end

/-- A pass over readable lines comes to one ranking of all forecasts that they
report. A pass that meets an unreadable line ends at the first of them, with
its error, as if nothing stood behind that line. -/
theorem interestingTrips_eq (source : ByteSource) (settings : Settings)
    (lines : List Line) :
    ((∀ line ∈ lines, Readable source settings line) →
      interestingTrips source settings lines
        = ((List.range lines.length).map fun i => ⟨i, lines.length⟩,
          .ok ((Ranking.empty settings.rankingSize).offerAll
            (reportedOffers source settings lines)).trips)) ∧
    (∀ before line after cause, lines = before ++ line :: after →
      (∀ earlier ∈ before, Readable source settings earlier) →
      (readLine source settings line).2 = .error (.streamRead cause) →
      interestingTrips source settings lines
        = ((List.range (before.length + 1)).map fun i => ⟨i, lines.length⟩,
          .error (.streamRead cause)) ∧
      ∀ (source' : ByteSource) (after' : List Line),
        (∀ read ∈ before ++ [line], source'.slice read.start read.stop
          = source.slice read.start read.stop) →
        after'.length = after.length →
        interestingTrips source' settings (before ++ line :: after')
          = interestingTrips source settings lines) := by
  refine ⟨interestingTrips_readable, ?_⟩
  rintro before line after cause rfl hbefore hline
  refine ⟨interestingTrips_unreadable hbefore hline after, ?_⟩
  intro source' after' hslice hlength
  have hbefore' : ∀ earlier ∈ before,
      Readable source' settings earlier := by
    intro earlier hmem
    rw [Readable, readLine_congr (hslice earlier
      (List.mem_append_left _ hmem))]
    exact hbefore earlier hmem
  have hline' : (readLine source' settings line).2
      = .error (.streamRead cause) := by
    rw [readLine_congr (hslice line (List.mem_append_right _
      (List.mem_singleton.mpr rfl)))]
    exact hline
  rw [interestingTrips_unreadable hbefore' hline',
    interestingTrips_unreadable hbefore hline, List.length_append,
    List.length_append, List.length_cons, List.length_cons, hlength]

/-- A source with one line, which breaks off behind the edges of a trip, and
with nothing to be had behind it. -/
def brokenSource : ByteSource :=
  (ByteSource.memory
    "\x7b\"a\":\x7b\"b\":[\x7b\"trip\":\x7b\x7d,\"edges\":[]".toUTF8.toList).broken
      { stream := false, sliceFrom := some 32, readAt := none,
        cause := .badPlace }

theorem interestingTrips_eq_of_broken :
    interestingTrips brokenSource .default [.between 0 32]
      = ([⟨0, 1⟩], .ok ((Ranking.empty 500).offerAll
          (reportedOffers brokenSource .default [.between 0 32])).trips) ∧
    interestingTrips brokenSource .default
        [.between 0 32, .between 33 60, .between 61 70]
      = ([⟨0, 3⟩, ⟨1, 3⟩], .error (.streamRead .badPlace)) := by
  have hread : ∀ line ∈ [Line.between 0 32],
      Readable brokenSource .default line := by
    decide +kernel
  have hbroken : (readLine brokenSource .default (.between 33 60)).2
      = .error (.streamRead .badPlace) := rfl
  exact ⟨(interestingTrips_eq _ _ _).1 hread,
    ((interestingTrips_eq _ _ _).2 [.between 0 32] _ [.between 61 70] _ rfl
      hread hbroken).1⟩

end Ridership

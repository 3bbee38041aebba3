import Mathlib.Data.List.DropRight
import Ridership.Proofs.AssemblerStep

/-!
# What an assembler knows is what it was told last

An assembler goes on after a sub-tree that does not read, so a law about it has
to speak of whole histories, faults included. The law is that nothing is kept
but the last word. For each station and for the services this is the last value
that read, anywhere before. For the trip it is the last one that read behind the
last edges, for edges take the trip with them whatever becomes of it.

The law is an induction over the history from its end (`accept_after`): the last
sub-tree is either edges, which leave nothing that waits, or adds what it reads
as to what was there before. `Assembler.FollowsHistory` says what that means for
each answer.
-/

namespace Ridership.Forecast

open Json (Selected Value Reader)

/-! ## What is known after some sub-trees -/

/-- The last value that one of some sub-trees reads as. -/
def latest? {α : Type} (part : Selected → Option α) (before : List Selected) :
    Option α :=
  (before.filterMap part).getLast?

/-- The stations and the services in force after some sub-trees. -/
def contextAfter (before : List Selected) : TripContext :=
  ⟨latest? primaryOf before, latest? secondaryOf before,
    latest? servicesOf before⟩

/-- The trip that waits after some sub-trees: the last one behind the
last edges. -/
def waitingAfter (before : List Selected) : Option Trip :=
  latest? tripOf (before.rtakeWhile fun found => !isEdges found)

/-- The `k`-th sub-tree is the trip that the `j`-th, a list of edges, belongs
to: the last trip that reads before it, with no other edges in between. -/
structure Serves (history : List Selected) (k j : Nat) (trip : Trip) :
    Prop where
  lt : k < j
  reads : history[k]?.bind tripOf = some trip
  edges : ∃ items, history[j]? = some (.array "edges" items)
  between : ∀ i found, k < i → i < j → history[i]? = some found →
    isEdges found = false ∧ tripOf found = none

/-- Takes sub-trees in order, whatever becomes of them: what is known in the
end, and what was answered to each. -/
def Assembler.acceptEach (a : Assembler) :
    List (Selected × Nat) → Assembler × List Answer
  | [] => (a, [])
  | (found, offset) :: rest =>
      let (a, answer) := a.accept found offset
      let (a, answers) := a.acceptEach rest
      (a, answer :: answers)

/-! ## The last word -/

section

variable {α : Type} {part : Selected → Option α} {before : List Selected}
  {found : Selected}

theorem latest?_concat :
    latest? part (before ++ [found])
      = (part found).or (latest? part before) := by
  rw [latest?, latest?, List.filterMap_append, List.getLast?_append]
  cases hpart : part found with
  | none => simp [hpart]
  | some a => simp [hpart]

theorem waitingAfter_edges (h : isEdges found = true) :
    waitingAfter (before ++ [found]) = none := by
  rw [waitingAfter, List.rtakeWhile_concat_neg _ _ _ (by simp [h])]
  rfl

theorem waitingAfter_part (h : isEdges found = false) :
    waitingAfter (before ++ [found])
      = (tripOf found).or (waitingAfter before) := by
  rw [waitingAfter, List.rtakeWhile_concat_pos _ _ _ (by simp [h]),
    latest?_concat]
  rfl

end

/-- The `k`-th of some sub-trees is a trip that reads, and behind it come
neither edges nor another one. -/
def IsLastTrip (before : List Selected) (k : Nat) (trip : Trip) : Prop :=
  before[k]?.bind tripOf = some trip ∧
    ∀ (i : Nat) (found : Selected), k < i → before[i]? = some found →
      isEdges found = false ∧ tripOf found = none

section

variable {before : List Selected} {found : Selected} {k : Nat} {trip : Trip}

theorem IsLastTrip.lt (h : IsLastTrip before k trip) : k < before.length := by
  by_contra hge
  have hnone : before[k]? = none := List.getElem?_eq_none (by omega)
  have hreads := h.1
  rw [hnone] at hreads
  cases hreads

/-- The last sub-tree is the last trip if it reads as one. -/
theorem isLastTrip_length :
    IsLastTrip (before ++ [found]) before.length trip
      ↔ tripOf found = some trip := by
  rw [IsLastTrip, List.getElem?_concat_length, Option.bind_some]
  refine ⟨And.left, fun h => ⟨h, fun i other hi hother => ?_⟩⟩
  have hnone : (before ++ [found])[i]? = none :=
    List.getElem?_eq_none (by simp; omega)
  rw [hnone] at hother
  cases hother

/-- A trip before the last sub-tree stays the last one unless that is a
trip or edges. -/
theorem isLastTrip_concat (hk : k < before.length) :
    IsLastTrip (before ++ [found]) k trip ↔
      IsLastTrip before k trip ∧ isEdges found = false ∧
        tripOf found = none := by
  have hlast : (before ++ [found])[before.length]? = some found :=
    List.getElem?_concat_length
  have hinit (i : Nat) (hi : i < before.length) :
      (before ++ [found])[i]? = before[i]? :=
    List.getElem?_append_left hi
  rw [IsLastTrip, IsLastTrip, hinit k hk]
  constructor
  · rintro ⟨hreads, hbetween⟩
    refine ⟨⟨hreads, fun i other hi hother => ?_⟩,
      hbetween _ _ hk hlast⟩
    have hlt : i < before.length := (List.getElem?_eq_some_iff.mp hother).1
    exact hbetween i other hi ((hinit i hlt).trans hother)
  · rintro ⟨⟨hreads, hbetween⟩, hfound⟩
    refine ⟨hreads, fun i other hi hother => ?_⟩
    rcases Nat.lt_or_ge i before.length with hlt | hge
    · exact hbetween i other hi ((hinit i hlt).symm.trans hother)
    · have hbound := (List.getElem?_eq_some_iff.mp hother).1
      rw [List.length_append, List.length_singleton] at hbound
      obtain rfl : i = before.length := by omega
      obtain rfl : found = other := Option.some.inj (hlast.symm.trans hother)
      exact hfound

end

/-- A trip waits if there is one behind the last edges, and it is the last. -/
theorem waitingAfter_eq_some {before : List Selected} {trip : Trip} :
    waitingAfter before = some trip ↔ ∃ k, IsLastTrip before k trip := by
  induction before using List.reverseRecOn with
  | nil => simp [waitingAfter, latest?, IsLastTrip]
  | append_singleton before found ih =>
      have hsplit : (∃ k, IsLastTrip (before ++ [found]) k trip) ↔
          tripOf found = some trip ∨ (∃ k, IsLastTrip before k trip) ∧
            isEdges found = false ∧ tripOf found = none := by
        constructor
        · rintro ⟨k, hk⟩
          have hlt := hk.lt
          rw [List.length_append, List.length_singleton] at hlt
          rcases Nat.lt_or_eq_of_le (Nat.le_of_lt_succ hlt) with hlt | rfl
          · obtain ⟨hbefore, hfound⟩ := (isLastTrip_concat hlt).mp hk
            exact .inr ⟨⟨k, hbefore⟩, hfound⟩
          · exact .inl (isLastTrip_length.mp hk)
        · rintro (h | ⟨⟨k, hk⟩, hfound⟩)
          · exact ⟨_, isLastTrip_length.mpr h⟩
          · exact ⟨k, (isLastTrip_concat hk.lt).mpr ⟨hk, hfound⟩⟩
      rw [hsplit, ← ih]
      cases hedges : isEdges found with
      | true => simp [waitingAfter_edges hedges, tripOf_edges hedges]
      | false =>
          rw [waitingAfter_part hedges]
          cases htrip : tripOf found <;> simp

/-! ## Histories -/

/-- What is known after some sub-trees, told from them alone. -/
def Assembler.after (before : List Selected) : Assembler :=
  ⟨waitingAfter before, contextAfter before⟩

/-- The law for one sub-tree more. -/
theorem Assembler.accept_after (before : List Selected) (found : Selected)
    (offset : Nat) :
    ((after before).accept found offset).1 = after (before ++ [found]) := by
  cases hedges : isEdges found with
  | false =>
      rw [(accept_part hedges).1, adding, after, after,
        waitingAfter_part hedges]
      simp only [contextAfter, latest?_concat]
  | true =>
      obtain ⟨items, rfl⟩ := eq_edges hedges
      rw [accept_edges, after, after, waitingAfter_edges hedges]
      -- No part of the context is an array under this key.
      have hcontext : contextAfter (before ++ [.array "edges" items])
          = contextAfter before := by
        simp [contextAfter, latest?_concat, primaryOf, secondaryOf,
          servicesOf, objectOf, arrayOf]
      rw [hcontext]

theorem Assembler.acceptEach_cons (a : Assembler) (found : Selected)
    (offset : Nat) (history : List (Selected × Nat)) :
    a.acceptEach ((found, offset) :: history)
      = (((a.accept found offset).1.acceptEach history).1,
        (a.accept found offset).2
          :: ((a.accept found offset).1.acceptEach history).2) := rfl

/-- The law for a whole history: what is known in the end, and what each
sub-tree was answered, are told from what came before. -/
theorem Assembler.acceptEach_after (history : List (Selected × Nat))
    (before : List Selected) :
    ((after before).acceptEach history).1
        = after (before ++ history.map Prod.fst) ∧
      ∀ (j : Nat) (found : Selected) (offset : Nat),
        history[j]? = some (found, offset) →
          ((after before).acceptEach history).2[j]?
            = some ((after (before ++ (history.map Prod.fst).take j)).accept
                found offset).2 := by
  induction history generalizing before with
  | nil => exact ⟨by rw [List.map_nil, List.append_nil]; rfl, by simp⟩
  | cons first history ih =>
      obtain ⟨found, offset⟩ := first
      obtain ⟨hknown, hanswers⟩ := ih (before ++ [found])
      rw [acceptEach_cons, accept_after]
      refine ⟨by rw [hknown, List.append_assoc]; rfl, fun j => ?_⟩
      cases j with
      | zero =>
          rintro found' offset' ⟨⟩
          rw [List.take_zero, List.append_nil]
          rfl
      | succ j =>
          intro found' offset' hj
          have hrest := hanswers j found' offset' hj
          rw [List.append_assoc] at hrest
          exact hrest

theorem Assembler.length_acceptEach (a : Assembler)
    (history : List (Selected × Nat)) :
    (a.acceptEach history).2.length = history.length := by
  induction history generalizing a with
  | nil => rfl
  | cons first history ih =>
      rw [acceptEach, List.length_cons, List.length_cons, ih]

section

variable {history : List Selected} {items : List Value} {k j j' : Nat}
  {trip trip' : Trip}

theorem serves_iff (hj : history[j]? = some (.array "edges" items)) :
    Serves history k j trip ↔ IsLastTrip (history.take j) k trip := by
  have htake (i : Nat) (hi : i < j) : (history.take j)[i]? = history[i]? :=
    List.getElem?_take_of_lt hi
  constructor
  · rintro ⟨hlt, hreads, -, hbetween⟩
    refine ⟨by rw [htake k hlt]; exact hreads, fun i found hi hfound => ?_⟩
    have hij := (List.getElem?_eq_some_iff.mp hfound).1
    rw [List.length_take] at hij
    rw [htake i (by omega)] at hfound
    exact hbetween i found hi (by omega) hfound
  · intro h
    have hlt := h.lt
    rw [List.length_take] at hlt
    obtain ⟨hreads, hbetween⟩ := h
    rw [htake k (by omega)] at hreads
    refine ⟨by omega, hreads, ⟨items, hj⟩, fun i found hi hij hfound => ?_⟩
    exact hbetween i found hi ((htake i hij).trans hfound)

/-- A trip serves the next edges alone. -/
theorem Serves.unique (h : Serves history k j trip)
    (h' : Serves history k j' trip') : j = j' := by
  rcases Nat.lt_trichotomy j j' with hlt | heq | hlt
  · obtain ⟨items, hedges⟩ := h.edges
    exact absurd (h'.between j _ h.lt hlt hedges).1 (by simp [isEdges])
  · exact heq
  · obtain ⟨items, hedges⟩ := h'.edges
    exact absurd (h.between j' _ h'.lt hlt hedges).1 (by simp [isEdges])

end

/-! ## The law -/

section

variable {x : Except ForecastError Outcome} {o : Outcome}
  {error : ForecastError}

theorem of_map_some_ok (h : x.map some = .ok (some o)) : x = .ok o := by
  cases x <;> cases h
  rfl

theorem of_map_some_error (h : x.map some = .error error) :
    x = .error error := by
  cases x <;> cases h
  rfl

theorem map_some_ne_none : x.map some ≠ .ok none := by
  cases x <;> exact nofun

end

/-- The answer to edges, told from what came before them. -/
theorem accept_edges_after {history : List Selected} {items : List Value}
    {j : Nat} (offset : Nat) (hj : history[j]? = some (.array "edges" items)) :
    (¬ (∃ k trip, Serves history k j trip) ∧
        ((Assembler.after (history.take j)).accept (.array "edges" items)
          offset).2 = .ok none) ∨
      ∃ k trip, Serves history k j trip ∧
        ((Assembler.after (history.take j)).accept (.array "edges" items)
          offset).2
          = (outcomeOf trip (contextAfter (history.take j)) items offset).map
              some := by
  rw [Assembler.accept_edges, Assembler.after]
  simp only [serves_iff hj]
  cases hwaiting : waitingAfter (history.take j) with
  | none =>
      refine .inl ⟨fun ⟨k, trip, h⟩ => ?_, rfl⟩
      rw [waitingAfter_eq_some.mpr ⟨k, h⟩] at hwaiting
      cases hwaiting
  | some trip =>
      obtain ⟨k, hk⟩ := waitingAfter_eq_some.mp hwaiting
      exact .inr ⟨k, trip, hk, rfl⟩

/-- What a history of sub-trees, each with its place, makes an assembler know in
the end and answer on the way. -/
structure Assembler.FollowsHistory (history : List (Selected × Nat))
    (known : Assembler) (answers : List Answer) : Prop where
  /-- There is an answer to each sub-tree, also behind a fault. -/
  length : answers.length = history.length
  /-- In the end nothing is known but the last word on each part. -/
  known : known = after (history.map Prod.fst)
  /-- Edges that no trip waits for yield nothing, and all others something,
  whether they read or not. -/
  edges_iff : ∀ (j : Nat) items offset,
    history[j]? = some (.array "edges" items, offset) →
      (answers[j]? ≠ some (.ok none) ↔
        ∃ k trip, Serves (history.map Prod.fst) k j trip)
  /-- What they yield is the outcome of the trip they belong to, with the
  context in force before them. -/
  edges : ∀ (j : Nat) items offset k trip,
    history[j]? = some (.array "edges" items, offset) →
      Serves (history.map Prod.fst) k j trip →
        answers[j]? = some ((outcomeOf trip
          (contextAfter ((history.map Prod.fst).take j)) items offset).map some)
  /-- A trip belongs to one list of edges at most. -/
  once : ∀ k j j' trip trip', Serves (history.map Prod.fst) k j trip →
    Serves (history.map Prod.fst) k j' trip' → j = j'
  /-- A forecast has its trip, its stations and its services from sub-trees that
  read, each from the last such. -/
  forecast : ∀ (j : Nat) f, answers[j]? = some (.ok (some (.forecast f))) →
    (∃ k, Serves (history.map Prod.fst) k j f.trip) ∧
      f.primaryStation = latest? primaryOf ((history.map Prod.fst).take j) ∧
      f.secondaryStation
        = latest? secondaryOf ((history.map Prod.fst).take j) ∧
      f.serviceInfos = latest? servicesOf ((history.map Prod.fst).take j)
  /-- A trip is rejected for a distribution that falls short. -/
  rejected : ∀ (j : Nat) trip cause,
    answers[j]? = some (.ok (some (.rejected trip cause))) →
      (∃ k, Serves (history.map Prod.fst) k j trip) ∧
        ∃ level, cause = .invalidCdf level
  /-- Any sub-tree but edges yields nothing, but for the fault of one that
  should read and does not. -/
  part : ∀ (j : Nat) found offset, history[j]? = some (found, offset) →
    isEdges found = false →
      ∃ answer, answers[j]? = some answer ∧ AnswersPart found offset answer
  /-- All faults are faults of a record, and tell the place of their
  sub-tree. -/
  fault : ∀ (j : Nat) found offset error, history[j]? = some (found, offset) →
    answers[j]? = some (.error error) →
      ∃ message, error = .malformedRecord offset message
  /-- What was known before an idle sub-tree is known after it, no more
  and no less. -/
  idle : ∀ (j : Nat) found offset, history[j]? = some (found, offset) →
    IsIdle found →
      (start.acceptEach (history.take (j + 1))).1
        = (start.acceptEach (history.take j)).1

/-- The answers there are: what comes of the edges of a trip, nothing, or the
fault of a sub-tree that does not read. -/
theorem answer_after {history : List Selected} {found : Selected}
    {offset j : Nat} (hj : history[j]? = some found) {answer : Answer}
    (h : ((Assembler.after (history.take j)).accept found offset).2 = answer) :
    (∃ k trip items, Serves history k j trip ∧
        answer = (outcomeOf trip (contextAfter (history.take j)) items
          offset).map some) ∨
      answer = .ok none ∨
      ∃ message, answer = .error (.malformedRecord offset message) := by
  cases hedges : isEdges found with
  | false =>
      have hpart := (@Assembler.accept_part (.after (history.take j)) found
        offset hedges).2
      rw [h, AnswersPart] at hpart
      split at hpart
      · exact .inr (.inr hpart)
      · exact .inr (.inl hpart)
  | true =>
      obtain ⟨items, rfl⟩ := eq_edges hedges
      rcases accept_edges_after offset hj with
        ⟨-, hnone⟩ | ⟨k, trip, hserves, houtcome⟩
      · exact .inr (.inl (h.symm.trans hnone))
      · exact .inl ⟨k, trip, items, hserves, h.symm.trans houtcome⟩

/-- An outcome is that of the trip the edges belong to. -/
theorem outcome_after {history : List Selected} {found : Selected}
    {offset j : Nat} {o : Outcome} (hj : history[j]? = some found)
    (h : ((Assembler.after (history.take j)).accept found offset).2
      = .ok (some o)) :
    ∃ k trip items, Serves history k j trip ∧
      outcomeOf trip (contextAfter (history.take j)) items offset = .ok o := by
  rcases answer_after hj h with
    ⟨k, trip, items, hserves, houtcome⟩ | hnone | ⟨message, herror⟩
  · exact ⟨k, trip, items, hserves, of_map_some_ok houtcome.symm⟩
  · cases hnone
  · cases herror

section

variable {history : List (Selected × Nat)} {j : Nat} {found : Selected}
  {offset : Nat}

theorem getElem?_map_fst (hj : history[j]? = some (found, offset)) :
    (history.map Prod.fst)[j]? = some found := by
  rw [List.getElem?_map, hj]
  rfl

theorem Assembler.getElem?_acceptEach (hj : history[j]? = some (found, offset)) :
    (start.acceptEach history).2[j]?
      = some ((after ((history.map Prod.fst).take j)).accept found offset).2 :=
  (acceptEach_after history []).2 j found offset hj

/-- Every answer is that to some sub-tree. -/
theorem Assembler.accept_of_getElem? {answer : Answer}
    (h : (start.acceptEach history).2[j]? = some answer) :
    ∃ found offset, history[j]? = some (found, offset) ∧
      ((after ((history.map Prod.fst).take j)).accept found offset).2
        = answer := by
  have hlt := (List.getElem?_eq_some_iff.mp h).1
  rw [length_acceptEach] at hlt
  have hj : history[j]? = some (history[j].1, history[j].2) :=
    List.getElem?_eq_getElem hlt
  exact ⟨_, _, hj, Option.some.inj ((getElem?_acceptEach hj).symm.trans h)⟩

theorem Assembler.acceptEach_idle (hj : history[j]? = some (found, offset))
    (hidle : IsIdle found) :
    (start.acceptEach (history.take (j + 1))).1
      = (start.acceptEach (history.take j)).1 := by
  have hnext : (history.take (j + 1)).map Prod.fst
      = (history.take j).map Prod.fst ++ [found] := by
    rw [List.take_add_one, hj, List.map_append]
    rfl
  have hknows (n : Nat) : (start.acceptEach (history.take n)).1
      = after ((history.take n).map Prod.fst) :=
    (acceptEach_after (history.take n) []).1
  rw [hknows, hknows, hnext, ← accept_after _ found offset, accept_idle hidle]

end

/-- An assembler follows its history, whatever it is told. -/
theorem Assembler.acceptEach_followsHistory
    (history : List (Selected × Nat)) :
    FollowsHistory history (start.acceptEach history).1
      (start.acceptEach history).2 := by
  constructor
  case length => exact length_acceptEach start history
  case known => exact (acceptEach_after history []).1
  case edges_iff =>
    intro j items offset hj
    rw [getElem?_acceptEach hj, ne_eq, Option.some.injEq]
    rcases accept_edges_after offset (getElem?_map_fst hj) with
      ⟨hserves, hnone⟩ | ⟨k, trip, hserves, houtcome⟩
    · exact iff_of_false (fun h => h hnone) hserves
    · rw [houtcome]
      exact iff_of_true map_some_ne_none ⟨k, trip, hserves⟩
  case edges =>
    intro j items offset k trip hj hserves
    have hlast := (serves_iff (getElem?_map_fst hj)).mp hserves
    have hwaiting : waitingAfter ((history.map Prod.fst).take j) = some trip :=
      waitingAfter_eq_some.mpr ⟨k, hlast⟩
    rw [getElem?_acceptEach hj, accept_edges, after, hwaiting]
  case once => exact fun k j j' trip trip' h h' => h.unique h'
  case forecast =>
    intro j f h
    obtain ⟨found, offset, hj, haccept⟩ := accept_of_getElem? h
    obtain ⟨k, trip, items, hserves, houtcome⟩ :=
      outcome_after (getElem?_map_fst hj) haccept
    obtain ⟨rfl, hcontext⟩ := outcomeOf_forecast houtcome
    exact ⟨⟨k, hserves⟩, hcontext⟩
  case rejected =>
    intro j trip cause h
    obtain ⟨found, offset, hj, haccept⟩ := accept_of_getElem? h
    obtain ⟨k, served, items, hserves, houtcome⟩ :=
      outcome_after (getElem?_map_fst hj) haccept
    obtain ⟨rfl, hcause⟩ := outcomeOf_rejected houtcome
    exact ⟨⟨k, hserves⟩, hcause⟩
  case part =>
    intro j found offset hj hedges
    exact ⟨_, getElem?_acceptEach hj, (accept_part hedges).2⟩
  case fault =>
    intro j found offset error hj h
    have haccept := Option.some.inj ((getElem?_acceptEach hj).symm.trans h)
    rcases answer_after (getElem?_map_fst hj) haccept with
      ⟨k, trip, items, -, houtcome⟩ | hnone | ⟨message, hmessage⟩
    · exact outcomeOf_error (of_map_some_error houtcome.symm)
    · cases hnone
    · exact ⟨message, Except.error.inj hmessage⟩
  case idle => exact fun j found offset hj => acceptEach_idle hj

end Ridership.Forecast

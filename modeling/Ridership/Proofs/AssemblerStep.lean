import Ridership.Proofs.Assembling

/-!
# What one sub-tree does to an assembler

There are three ways for a sub-tree to be taken. Edges clear the waiting trip
before anything of them is read, and only if there was one they are read at all
(`accept_edges`). A trip, a station or a list of services replaces what was
known of it if it reads, and any other sub-tree has nothing to add: for both,
what is known afterwards is what was known before with all added that the
sub-tree reads as, which may be nothing (`accept_part`).
-/

namespace Ridership.Forecast

open Json (Selected Value Reader)

/-! ## What a sub-tree reads as -/

section

variable {α : Type}

/-- An object under a key, if it reads. -/
def objectOf (key : String) (read : Reader α) : Selected → Option α
  | .object name members =>
      if name = key then (read (.object members)).toOption else none
  | .array _ _ => none

/-- An array under a key, if it reads. -/
def arrayOf (key : String) (read : Reader α) : Selected → Option α
  | .array name items =>
      if name = key then (read (.array items)).toOption else none
  | .object _ _ => none

end

def tripOf : Selected → Option Trip :=
  objectOf "trip" Trip.read

def primaryOf : Selected → Option Station :=
  objectOf "primary_station" Station.read

def secondaryOf : Selected → Option Station :=
  objectOf "secondary_station" Station.read

def servicesOf : Selected → Option (List ServiceInfo) :=
  arrayOf "service_infos" (Json.readList ServiceInfo.read)

/-- Whether a sub-tree is a list of edges, whatever is in it. -/
def isEdges : Selected → Bool
  | .array key _ => key = "edges"
  | .object _ _ => false

/-- Whether a sub-tree is a trip, a station or a list of services,
whatever is in it. -/
def isPart : Selected → Bool
  | .object key _ =>
      ["trip", "primary_station", "secondary_station"].contains key
  | .array key _ => key = "service_infos"

/-- Whether a sub-tree should read and does not. -/
def isUnread (found : Selected) : Bool :=
  isPart found && (tripOf found).isNone && (primaryOf found).isNone
    && (secondaryOf found).isNone && (servicesOf found).isNone

section

variable {found : Selected}

theorem eq_edges (h : isEdges found = true) :
    ∃ items, found = .array "edges" items := by
  cases found with
  | object key members => cases h
  | array key items =>
      obtain rfl : key = "edges" := by simpa [isEdges] using h
      exact ⟨items, rfl⟩

theorem tripOf_edges (h : isEdges found = true) : tripOf found = none := by
  obtain ⟨items, rfl⟩ := eq_edges h
  rfl

end

/-! ## What edges lead to -/

/-- What the edges of a trip lead to. A trip whose distributions fall short is
rejected. -/
def outcomeOf (trip : Trip) (context : TripContext) (items : List Value)
    (offset : Nat) : Except ForecastError Outcome :=
  match Json.readList RawEdge.read (.array items) with
  | .error fault =>
      .error (.malformedRecord offset s!"invalid edges: {fault.message}")
  | .ok raw =>
      match TripForecast.assemble trip raw context with
      | .ok f => .ok (.forecast f)
      | .error cause => .ok (.rejected trip cause)

/-- What an assembler answers to a sub-tree. -/
abbrev Answer := Except ForecastError (Option Outcome)

theorem outcomeOf_eq (trip : Trip) (context : TripContext) (items : List Value)
    (offset : Nat) : outcomeOf trip context items offset
      = (readSelected (Json.readList RawEdge.read) "edges" (.array items)
          offset).bind fun raw => Outcome.ofEdges trip raw context := by
  unfold outcomeOf readSelected
  cases Json.readList RawEdge.read (.array items) with
  | error fault => rfl
  | ok raw =>
      dsimp only [Except.bind]
      have hshort := TripForecast.assemble_failsShort trip raw context
      unfold Outcome.ofEdges
      cases hassemble : TripForecast.assemble trip raw context with
      | ok f => rfl
      | error cause =>
          obtain ⟨level, rfl⟩ := hshort cause hassemble
          rfl

section

variable {trip : Trip} {context : TripContext} {items : List Value}
  {offset : Nat}

/-- What a forecast is made of: its own trip, and what was in force. -/
theorem outcomeOf_forecast {f : TripForecast}
    (h : outcomeOf trip context items offset = .ok (.forecast f)) :
    f.trip = trip ∧ f.primaryStation = context.primaryStation ∧
      f.secondaryStation = context.secondaryStation ∧
      f.serviceInfos = context.serviceInfos := by
  unfold outcomeOf at h
  split at h
  · cases h
  · next raw _ =>
      split at h
      · next g hassemble =>
          cases h
          unfold TripForecast.assemble at hassemble
          cases hedges :
              (raw.filter fun e => !e.isSelfLoop).mapM Edge.summarize with
          | error error => rw [hedges] at hassemble; cases hassemble
          | ok edges => rw [hedges] at hassemble; cases hassemble; simp
      · cases h

theorem outcomeOf_rejected {lost : Trip}
    {cause : ForecastError}
    (h : outcomeOf trip context items offset = .ok (.rejected lost cause)) :
    lost = trip ∧ ∃ level, cause = .invalidCdf level := by
  unfold outcomeOf at h
  split at h
  · cases h
  · next raw _ =>
      split at h
      · cases h
      · next error hassemble =>
          cases h
          exact ⟨rfl,
            TripForecast.assemble_failsShort trip raw context _ hassemble⟩

theorem outcomeOf_error {error : ForecastError}
    (h : outcomeOf trip context items offset = .error error) :
    ∃ message, error = .malformedRecord offset message := by
  unfold outcomeOf at h
  split at h
  · cases h
    exact ⟨_, rfl⟩
  · split at h <;> cases h

end

/-! ## What is taken -/

/-- Edges take the waiting trip with them, whether they read or not. -/
theorem Assembler.accept_edges (a : Assembler) (items : List Value)
    (offset : Nat) :
    a.accept (.array "edges" items) offset
      = ({ a with waiting := none },
        match a.waiting with
        | none => .ok none
        | some trip => (outcomeOf trip a.context items offset).map some) := by
  obtain ⟨_ | trip, context⟩ := a
  · rfl
  · simp only [outcomeOf_eq]
    rfl

/-- What is known when a sub-tree that is no list of edges has added what it
reads as. -/
def Assembler.adding (a : Assembler) (found : Selected) : Assembler where
  waiting := (tripOf found).or a.waiting
  context :=
    { primaryStation := (primaryOf found).or a.context.primaryStation
      secondaryStation := (secondaryOf found).or a.context.secondaryStation
      serviceInfos := (servicesOf found).or a.context.serviceInfos }

/-- The answer to a sub-tree that is no list of edges. -/
def AnswersPart (found : Selected) (offset : Nat) (answer : Answer) : Prop :=
  if isUnread found then
    ∃ message, answer = .error (.malformedRecord offset message)
  else answer = .ok none

section

variable {a : Assembler} {found : Selected} {offset : Nat}

/-- A part is replaced if the sub-tree reads, and only then. -/
theorem Assembler.update_adds {α : Type} {read : Reader α} {v : Value}
    {set : α → Assembler} (key : String)
    (hreads : ∀ x, (read v).toOption = some x →
      a.adding found = set x ∧ isUnread found = false)
    (hunread : (read v).toOption = none →
      a.adding found = a ∧ isUnread found = true) :
    (a.update read key v offset set).1 = a.adding found ∧
      AnswersPart found offset (a.update read key v offset set).2 := by
  unfold update readSelected AnswersPart
  cases hv : read v with
  | ok x =>
      obtain ⟨hadding, hread⟩ := hreads x (by rw [hv]; rfl)
      rw [hadding, hread]
      exact ⟨rfl, rfl⟩
  | error fault =>
      obtain ⟨hadding, hread⟩ := hunread (by rw [hv]; rfl)
      rw [hadding, hread]
      exact ⟨rfl, _, rfl⟩

/-- A sub-tree under any other key has nothing to add. -/
theorem Assembler.adding_other (h : isPart found = false) :
    a.adding found = a ∧ isUnread found = false := by
  cases found with
  | object key members =>
      simp only [isPart, List.contains_eq_mem, List.mem_cons, List.not_mem_nil,
        decide_eq_false_iff_not, not_or] at h
      simp [adding, isUnread, isPart, tripOf, primaryOf, secondaryOf,
        servicesOf, objectOf, arrayOf, h]
  | array key items =>
      simp only [isPart, decide_eq_false_iff_not] at h
      simp [adding, isUnread, isPart, tripOf, primaryOf, secondaryOf,
        servicesOf, objectOf, arrayOf, h]

/-- Any sub-tree but edges adds what it reads as, and says so if it should read
and does not. -/
theorem Assembler.accept_part (h : isEdges found = false) :
    (a.accept found offset).1 = a.adding found ∧
      AnswersPart found offset (a.accept found offset).2 := by
  have hother (hpart : isPart found = false) :
      a = a.adding found ∧ AnswersPart found offset (.ok none) := by
    obtain ⟨hadding, hread⟩ := a.adding_other hpart
    rw [hadding, AnswersPart, hread]
    exact ⟨rfl, rfl⟩
  cases found with
  | object key members =>
      unfold accept
      dsimp only
      split
      -- One case for each key of a part, and one for all others.
      iterate 3
        · apply update_adds <;>
          simp +contextual [adding, isUnread, isPart, tripOf, primaryOf,
            secondaryOf, servicesOf, objectOf, arrayOf]
      · next htrip hprimary hsecondary =>
          refine hother ?_
          simpa [isPart] using ⟨htrip, hprimary, hsecondary⟩
  | array key items =>
      unfold accept
      dsimp only
      split
      · apply update_adds <;>
        simp +contextual [adding, isUnread, isPart, tripOf, primaryOf,
          secondaryOf, servicesOf, objectOf, arrayOf]
      · exact absurd h (by simp [isEdges])
      · next hservices hedges => exact hother (by simpa [isPart] using hservices)

/-- A sub-tree that should read and does not has nothing to add either. -/
theorem Assembler.adding_unread (h : isUnread found = true) :
    a.adding found = a := by
  simp only [isUnread, Bool.and_eq_true, Option.isNone_iff_eq_none] at h
  obtain ⟨⟨⟨⟨-, htrip⟩, hprimary⟩, hsecondary⟩, hservices⟩ := h
  rw [adding, htrip, hprimary, hsecondary, hservices]
  rfl

end

/-- A sub-tree that changes nothing: one that should read and does not, or one
under any other key. -/
def IsIdle (found : Selected) : Prop :=
  isUnread found = true ∨ isPart found = false ∧ isEdges found = false

theorem Assembler.accept_idle {a : Assembler} {found : Selected} {offset : Nat}
    (h : IsIdle found) : (a.accept found offset).1 = a := by
  rcases h with hunread | ⟨hpart, hedges⟩
  · have hedges : isEdges found = false := by
      cases hedges : isEdges found with
      | false => rfl
      | true =>
          obtain ⟨items, rfl⟩ := eq_edges hedges
          cases hunread
    rw [(accept_part hedges).1, adding_unread hunread]
  · rw [(accept_part hedges).1, (adding_other hpart).1]

end Ridership.Forecast

import Ridership.Forecast.Assembler

/-!
# Putting the parts of a line together

The place that goes with a sub-tree has one use: an error repeats it. What the
assembler knows afterwards, what comes of the sub-tree and what an error says
are the same for every place, so sub-trees can be counted from wherever it
suits. `acceptAll` runs them all, up to the first that does not read.

What makes this go through is that a list of edges which reads always has an
outcome. Putting a forecast together fails for one reason alone, a
distribution that falls short, and that is a rejection and not an error.
-/

namespace Ridership.Forecast

open Json (Selected Value Reader)

/-! ## What a forecast can fail for -/

/-- Fails for nothing but a distribution that falls short. -/
def FailsShort {α : Type} (x : Except ForecastError α) : Prop :=
  ∀ error, x = .error error → ∃ level, error = .invalidCdf level

section

variable {α β : Type}

theorem FailsShort.ok (a : α) : FailsShort (.ok a) := by
  intro error h
  exact absurd h (by simp)

theorem FailsShort.bind {x : Except ForecastError α}
    {f : α → Except ForecastError β} (hx : FailsShort x)
    (hf : ∀ a, FailsShort (f a)) : FailsShort (x >>= f) := by
  intro error h
  cases x with
  | error cause =>
      obtain rfl : cause = error := by simpa [Bind.bind, Except.bind] using h
      exact hx cause rfl
  | ok a => exact hf a error h

theorem FailsShort.mapM {f : α → Except ForecastError β}
    (hf : ∀ a, FailsShort (f a)) (l : List α) : FailsShort (l.mapM f) := by
  induction l with
  | nil => exact FailsShort.ok _
  | cons a l ih =>
      rw [List.mapM_cons]
      exact (hf a).bind fun _ => ih.bind fun _ => FailsShort.ok _

end

theorem quantile_failsShort (cdf : List CdfEntry) (level : Float) :
    FailsShort (quantile cdf level) := by
  intro error h
  rw [quantile] at h
  split at h
  · exact absurd h (by simp)
  · cases h
    exact ⟨level, rfl⟩

theorem EdgeSummary.ofCdf_failsShort (cdf : List CdfEntry) (capacity : Float) :
    FailsShort (EdgeSummary.ofCdf cdf capacity) := by
  rw [ofCdf]
  refine .bind (quantile_failsShort _ _) fun _ => ?_
  refine .bind (quantile_failsShort _ _) fun _ => ?_
  refine .bind (quantile_failsShort _ _) fun _ => ?_
  refine .bind (quantile_failsShort _ _) fun _ => ?_
  exact .bind (quantile_failsShort _ _) fun _ => .ok _

theorem Edge.summarize_failsShort (e : RawEdge) :
    FailsShort (Edge.summarize e) := by
  rw [summarize]
  split
  · exact .ok _
  · exact .bind (EdgeSummary.ofCdf_failsShort _ _) fun _ => .ok _

theorem TripForecast.assemble_failsShort (trip : Trip) (raw : List RawEdge)
    (context : TripContext) : FailsShort (assemble trip raw context) := by
  rw [assemble]
  exact .bind (.mapM Edge.summarize_failsShort _) fun _ => .ok _

/-- Edges that read have an outcome. -/
theorem Outcome.ofEdges_ok (trip : Trip) (edges : List RawEdge)
    (context : TripContext) : ∃ o, ofEdges trip edges context = .ok o := by
  have hshort := TripForecast.assemble_failsShort trip edges context
  rw [ofEdges]
  cases h : TripForecast.assemble trip edges context with
  | ok f => exact ⟨.forecast f, rfl⟩
  | error error =>
      obtain ⟨level, rfl⟩ := hshort error h
      exact ⟨.rejected trip (.invalidCdf level), rfl⟩

/-! ## The place of a sub-tree -/

/-- Whether a message is about a sub-tree that does not read. A message about
the text itself begins otherwise. -/
def BlamesSubtree (message : String) : Prop :=
  "invalid ".toList <+: message.toList

instance (message : String) : Decidable (BlamesSubtree message) :=
  inferInstanceAs (Decidable ("invalid ".toList <+: message.toList))

/-- An error without the place of a sub-tree that does not read. -/
def ForecastError.placeless : ForecastError → ForecastError
  | .malformedRecord place message =>
      if BlamesSubtree message then .malformedRecord 0 message
      else .malformedRecord place message
  | error => error

theorem blamesSubtree_of_read (key : String) (fault : Json.DecodeFault) :
    BlamesSubtree s!"invalid {key}: {fault.message}" := by
  show _ <+: (("invalid " ++ toString key) ++ ": " ++
    toString fault.message).toList
  rw [String.append_assoc, String.append_assoc, String.toList_append]
  exact List.prefix_append _ _

theorem readSelected_placeless {α : Type} (read : Reader α) (key : String)
    (v : Value) (offset : Nat) :
    (readSelected read key v offset).mapError ForecastError.placeless
      = readSelected read key v 0 := by
  rw [readSelected, readSelected]
  cases read v with
  | ok a => rfl
  | error fault =>
      show Except.error (ForecastError.placeless _) = _
      rw [ForecastError.placeless, if_pos (blamesSubtree_of_read key fault)]

theorem Assembler.update_placeless {α : Type} (a : Assembler) (read : Reader α)
    (key : String) (v : Value) (offset : Nat) (set : α → Assembler) :
    ((a.update read key v offset set).1,
        (a.update read key v offset set).2.mapError ForecastError.placeless)
      = a.update read key v 0 set := by
  rw [update, update, ← readSelected_placeless read key v offset]
  cases readSelected read key v offset with
  | ok x => rfl
  | error error => rfl

/-- What becomes of a sub-tree is the same at every place, but for the place
that an error tells. -/
theorem Assembler.accept_placeless (a : Assembler) (found : Selected)
    (offset : Nat) :
    ((a.accept found offset).1,
        (a.accept found offset).2.mapError ForecastError.placeless)
      = a.accept found 0 := by
  cases found with
  | object key members =>
      unfold accept
      dsimp only
      split
      · exact update_placeless ..
      · exact update_placeless ..
      · exact update_placeless ..
      · rfl
  | array key items =>
      unfold accept
      dsimp only
      split
      · exact update_placeless ..
      · split
        · rfl
        · next trip _ =>
            rw [← readSelected_placeless _ "edges" _ offset]
            cases readSelected (Json.readList RawEdge.read) "edges"
                (Value.array items) offset with
            | error error => rfl
            | ok edges =>
                obtain ⟨o, ho⟩ := Outcome.ofEdges_ok trip edges a.context
                show (_, ((Outcome.ofEdges trip edges
                    a.context).map some).mapError ForecastError.placeless)
                  = (_, (Outcome.ofEdges trip edges a.context).map some)
                rw [ho]
                rfl
      · rfl

theorem readSelected_error {α : Type} {read : Reader α} {key : String}
    {v : Value} {offset : Nat} {error : ForecastError}
    (h : readSelected read key v offset = .error error) :
    ∃ message, BlamesSubtree message ∧
      error = .malformedRecord offset message := by
  rw [readSelected] at h
  split at h
  · exact absurd h (by simp)
  · next fault _ =>
      cases h
      exact ⟨_, blamesSubtree_of_read key fault, rfl⟩

theorem Assembler.update_error {α : Type} {a a' : Assembler}
    {read : Reader α} {key : String} {v : Value} {offset : Nat}
    {set : α → Assembler} {error : ForecastError}
    (h : a.update read key v offset set = (a', .error error)) :
    ∃ message, BlamesSubtree message ∧
      error = .malformedRecord offset message := by
  rw [update] at h
  split at h
  · exact absurd h (by simp)
  · next hread =>
      cases h
      exact readSelected_error hread

/-- An error of a sub-tree tells the place that was given for it. -/
theorem Assembler.accept_error {a a' : Assembler} {found : Selected}
    {offset : Nat} {error : ForecastError}
    (h : a.accept found offset = (a', .error error)) :
    ∃ message, BlamesSubtree message ∧
      error = .malformedRecord offset message := by
  unfold accept at h
  split at h
  · split at h
    · exact update_error h
    · exact update_error h
    · exact update_error h
    · exact absurd h (by simp)
  · next items =>
      dsimp only at h
      split at h
      · exact update_error h
      · split at h
        · exact absurd h (by simp)
        · next trip _ =>
            rcases hread : readSelected (Json.readList RawEdge.read) "edges"
                (Value.array items) offset with fault | edges
            · rw [hread] at h
              cases h
              exact readSelected_error hread
            · obtain ⟨o, ho⟩ := Outcome.ofEdges_ok trip edges a.context
              simp [hread, Bind.bind, Except.bind, ho, Except.map] at h
      · exact absurd h (by simp)

/-! ## One sub-tree after another -/

/-- Takes sub-trees in order, up to the first that does not read: the outcomes
on the way, and how it ended. -/
def Assembler.acceptAll (offset : Nat) (a : Assembler) :
    List Selected → List Outcome × Except ForecastError Unit
  | [] => ([], .ok ())
  | found :: rest =>
      match a.accept found offset with
      | (_, .error error) => ([], .error error)
      | (a, .ok outcome) =>
          let (outcomes, result) := a.acceptAll offset rest
          (outcome.toList ++ outcomes, result)

theorem Assembler.acceptAll_error {offset : Nat} {a : Assembler}
    {founds : List Selected} {error : ForecastError}
    (h : (a.acceptAll offset founds).2 = .error error) :
    ∃ message, BlamesSubtree message ∧
      error = .malformedRecord offset message := by
  induction founds generalizing a with
  | nil => exact absurd h (by simp [acceptAll])
  | cons found rest ih =>
      rw [acceptAll] at h
      rcases hfound : a.accept found offset with ⟨a', cause | outcome⟩
      · rw [hfound] at h
        cases h
        exact accept_error hfound
      · rw [hfound] at h
        exact ih h

/-- What comes behind a sub-tree that does not read does not matter. -/
theorem Assembler.acceptAll_append_error {offset : Nat} {a : Assembler}
    {founds : List Selected} {error : ForecastError}
    (h : (a.acceptAll offset founds).2 = .error error)
    (more : List Selected) :
    (a.acceptAll offset (founds ++ more)).2 = .error error := by
  induction founds generalizing a with
  | nil => exact absurd h (by simp [acceptAll])
  | cons found rest ih =>
      rw [List.cons_append, acceptAll]
      rw [acceptAll] at h
      rcases hfound : a.accept found offset with ⟨a', cause | outcome⟩
      · rw [hfound] at h
        exact h
      · rw [hfound] at h
        exact ih h

end Ridership.Forecast

import Ridership.Proofs.ScannerParts

/-!
# Whoever listens hears the same

A scanner does not depend on its listener, but for one thing: a listener that
refuses an event ends the run there. So a run under any listener is the run
that is only written down, replayed to that listener up to the first event
that it refuses. `drain_hears` says this for the steps up to the point where
nothing more is to be had, and `scan_hears` for a whole text.

The other way to relate two listeners is step by step. If one of them does at
every event what the other does, seen through a map of their states and of
their errors, then this holds of whole runs.
-/

namespace Ridership.Json

section

variable {σ τ ε ε' : Type}

/-- Tells events to a listener, up to the first that it refuses. -/
def Scanner.hear (listen : σ → Event → Nat → Except ε Unit × σ) (x : σ) :
    List (Event × Nat) → Except ε Unit × σ
  | [] => (.ok (), x)
  | (e, depth) :: told =>
      match listen x e depth with
      | (.ok (), x) => hear listen x told
      | (.error error, x) => (.error error, x)

/-- Tells events to a listener, and then how the telling ended. -/
def Scanner.hearTo (listen : σ → Event → Nat → Except ε Unit × σ)
    (ending : Except ε Unit) (x : σ) (told : List (Event × Nat)) :
    Except ε Unit × σ :=
  match hear listen x told with
  | (.ok (), x) => (ending, x)
  | (.error error, x) => (.error error, x)

variable {listen : σ → Event → Nat → Except ε Unit × σ}
  {refusal : ScanFault → ε}

theorem Scanner.hearTo_append (ending : Except ε Unit) (x : σ)
    (told more : List (Event × Nat)) :
    hearTo listen ending x (told ++ more) =
      match hear listen x told with
      | (.ok (), x) => hearTo listen ending x more
      | (.error error, x) => (.error error, x) := by
  induction told generalizing x with
  | nil => rfl
  | cons first told ih =>
      obtain ⟨e, depth⟩ := first
      rw [List.cons_append]
      rcases hl : listen x e depth with ⟨_ | ⟨⟩, y⟩
      · simp only [hearTo, hear, hl]
      · have := ih y
        simp only [hearTo, hear, hl] at this ⊢
        exact this

theorem Scanner.hearTo_of_ok {x y : σ} {told : List (Event × Nat)}
    (h : hear listen x told = (.ok (), y)) (ending : Except ε Unit) :
    hearTo listen ending x told = (ending, y) := by
  rw [hearTo, h]

theorem Scanner.hearTo_of_error {x y : σ} {told : List (Event × Nat)}
    {error : ε} (h : hear listen x told = (.error error, y))
    (ending : Except ε Unit) :
    hearTo listen ending x told = (.error error, y) := by
  rw [hearTo, h]

/-- A run is what is written down of it, replayed to its listener. -/
theorem Scanner.drain_hears (listen : σ → Event → Nat → Except ε Unit × σ)
    (refusal : ScanFault → ε) (ending : Bool) (s : Scanner)
    (before : List (Event × Nat)) :
    ∃ result told s',
      drain record id ending s before = (result, before ++ told, s') ∧
      ∀ x,
        (∀ y, hear listen x told = (.ok (), y) →
          drain listen refusal ending s x
            = (result.mapError refusal, y, s')) ∧
        (∀ error y, hear listen x told = (.error error, y) →
          ∃ t, drain listen refusal ending s x = (.error error, y, t)) := by
  fun_induction drain record id ending s before with
  | case1 s before t hstep =>
      refine ⟨_, [], t, by rw [List.append_nil], fun x => ⟨?_, ?_⟩⟩
      · rintro y ⟨⟩
        exact drain_of_idle hstep
      · rintro error y ⟨⟩
  | case2 s before fault t hstep =>
      refine ⟨_, [], t, by rw [List.append_nil], fun x => ⟨?_, ?_⟩⟩
      · rintro y ⟨⟩
        exact drain_of_fault hstep
      · rintro error y ⟨⟩
  | case3 s before t hstep ih =>
      obtain ⟨result, told, s', hrecord, hears⟩ := ih
      refine ⟨result, told, s', hrecord, fun x => ?_⟩
      rw [drain_of_silent hstep]
      exact hears x
  | case4 s before e depth t hstep before' hlisten ih =>
      obtain ⟨result, told, s', hrecord, hears⟩ := ih
      obtain rfl : before ++ [(e, depth)] = before' := congrArg Prod.snd hlisten
      refine ⟨result, (e, depth) :: told, s', ?_, fun x => ?_⟩
      · rw [hrecord, List.append_assoc]
        rfl
      · rw [drain_of_event hstep, hear]
        rcases listen x e depth with ⟨error | ⟨⟩, y⟩
        · refine ⟨fun _ h => absurd h (by simp), fun _ _ h => ?_⟩
          obtain ⟨⟨⟩, rfl⟩ := by simpa using h
          exact ⟨t, rfl⟩
        · exact hears y
  | case5 s before e depth t hstep error before' hlisten =>
      exact absurd (congrArg Prod.fst hlisten) (by simp [record])

/-- The reading of a text is what is written down of it, replayed to its
listener. -/
theorem Scanner.scan_hears (listen : σ → Event → Nat → Except ε Unit × σ)
    (refusal : ScanFault → ε) (s : Scanner) (before : List (Event × Nat))
    (parts : List (List UInt8)) :
    ∃ result told,
      s.scan record id before parts = (result, before ++ told) ∧
      ∀ x, s.scan listen refusal x parts
        = hearTo listen (result.mapError refusal) x told := by
  induction parts generalizing s before with
  | nil =>
      cases hs : s.started with
      | false =>
          refine ⟨.ok (), [], ?_, fun x => ?_⟩
          · simp [scan, feedAll, finish, hs]
          · rw [hearTo_of_ok rfl]
            simp only [scan, feedAll, finish, hs]
            rfl
      | true =>
          obtain ⟨result, told, s', hrecord, hears⟩ :=
            drain_hears listen refusal true s before
          refine ⟨result, told, ?_, fun x => ?_⟩
          · simp [scan, feedAll, finish, hs, hrecord]
          · simp only [scan, feedAll, finish, hs, if_true]
            rcases hheard : hear listen x told with ⟨error | ⟨⟩, y⟩
            · obtain ⟨t, hdrain⟩ := (hears x).2 error y hheard
              rw [hdrain, hearTo_of_error hheard]
            · rw [(hears x).1 y hheard, hearTo_of_ok hheard]
  | cons part parts ih =>
      obtain ⟨result, told, s', hrecord, hears⟩ :=
        drain_hears listen refusal false (s.receive part) before
      simp only [scan_cons, feed_eq]
      rw [hrecord]
      cases result with
      | error fault =>
          refine ⟨_, told, rfl, fun x => ?_⟩
          rcases hheard : hear listen x told with ⟨error | ⟨⟩, y⟩
          · obtain ⟨t, hdrain⟩ := (hears x).2 error y hheard
            rw [hdrain, hearTo_of_error hheard]
          · rw [(hears x).1 y hheard, hearTo_of_ok hheard]
            rfl
      | ok =>
          obtain ⟨result, more, hrest, hears'⟩ := ih s' (before ++ told)
          refine ⟨result, told ++ more, ?_, fun x => ?_⟩
          · simp only []
            rw [hrest, List.append_assoc]
          · rw [hearTo_append]
            rcases hheard : hear listen x told with ⟨error | ⟨⟩, y⟩
            · obtain ⟨t, hdrain⟩ := (hears x).2 error y hheard
              rw [hdrain]
            · rw [(hears x).1 y hheard]
              exact hears' y

/-- A text that is accepted brings its listener what is written down of it. -/
theorem Scanner.scan_of_transcript {parts : List (List UInt8)}
    (h : (transcript parts).1 = .ok ())
    (listen : σ → Event → Nat → Except ε Unit × σ) (refusal : ScanFault → ε)
    (x : σ) :
    Scanner.start.scan listen refusal x parts
      = hear listen x (transcript parts).2 := by
  obtain ⟨result, told, hrecord, hears⟩ :=
    scan_hears listen refusal Scanner.start [] parts
  rw [transcript, hrecord] at h ⊢
  obtain rfl : result = .ok () := h
  rw [hears x, List.nil_append]
  rcases hheard : hear listen x told with ⟨error | ⟨⟩, y⟩
  · exact hearTo_of_error hheard _
  · exact hearTo_of_ok hheard _

end

/-! ## What a listener keeps -/

section

variable {σ ε : Type} {listen : σ → Event → Nat → Except ε Unit × σ}
  {refusal : ScanFault → ε}

/-- What a listener keeps at every event, a run keeps. The errors of a run are
those of its listener and of the text. -/
theorem Scanner.drain_keeps {P : σ → Prop} {Q : ε → Prop}
    (hlisten : ∀ x e depth, P x → P (listen x e depth).2 ∧
      ∀ error, (listen x e depth).1 = .error error → Q error)
    (hrefusal : ∀ fault, Q (refusal fault)) (ending : Bool) (s : Scanner)
    {x : σ} (hx : P x) :
    P (drain listen refusal ending s x).2.1 ∧
    ∀ error, (drain listen refusal ending s x).1 = .error error →
      Q error := by
  fun_induction drain listen refusal ending s x with
  | case1 s x t hstep => exact ⟨hx, fun error h => absurd h (by simp)⟩
  | case2 s x fault t hstep =>
      refine ⟨hx, ?_⟩
      rintro error ⟨⟩
      exact hrefusal fault
  | case3 s x t hstep ih => exact ih hx
  | case4 s x e depth t hstep y hy ih =>
      have hkept := (hlisten x e depth hx).1
      rw [hy] at hkept
      exact ih hkept
  | case5 s x e depth t hstep error y hy =>
      obtain ⟨hkept, herror⟩ := hlisten x e depth hx
      rw [hy] at hkept herror
      refine ⟨hkept, ?_⟩
      rintro _ ⟨⟩
      exact herror error rfl

end

/-! ## Two listeners that do the same -/

section

variable {σ τ ε ε' : Type} {listen : σ → Event → Nat → Except ε Unit × σ}
  {listen' : τ → Event → Nat → Except ε' Unit × τ} {f : σ → τ} {g : ε → ε'}

theorem Scanner.drain_map
    (h : ∀ x e depth, listen' (f x) e depth
      = ((listen x e depth).1.mapError g, f (listen x e depth).2))
    (refusal : ScanFault → ε) (ending : Bool) (s : Scanner) (x : σ) :
    drain listen' (g ∘ refusal) ending s (f x)
      = ((drain listen refusal ending s x).1.mapError g,
        f (drain listen refusal ending s x).2.1,
        (drain listen refusal ending s x).2.2) := by
  fun_induction drain listen refusal ending s x with
  | case1 s x t hstep => exact drain_of_idle hstep
  | case2 s x fault t hstep => exact drain_of_fault hstep
  | case3 s x t hstep ih =>
      rw [drain_of_silent hstep]
      exact ih
  | case4 s x e depth t hstep y hlisten ih =>
      rw [drain_of_event hstep, h, hlisten]
      exact ih
  | case5 s x e depth t hstep error y hlisten =>
      rw [drain_of_event hstep, h, hlisten]
      rfl

end

end Ridership.Json

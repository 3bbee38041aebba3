import Ridership.Proofs.ScannerCalls

/-!
# A refused event is not lost

A listener that refuses an event stops the scanner, but not in the middle of
anything. The bytes of the event are taken, the depth is what it is behind the
event, and all other bytes are still pending. So to go on is to tell the rest,
and what is still to be told can be said without the one who listens: it is what
would be written down from here on (`Scanner.Owes`). A part that comes before
the rest is told is only more of what is pending.

A call that is stopped has told one event at least, and a text has so many and
no more. So after the last part there are not more stops than events, and a
scanner that is called until it is not stopped has told everything.
-/

namespace Ridership.Json

section

variable {σ ε : Type} {listen : σ → Event → Nat → Except ε Unit × σ}
  {refusal : ScanFault → ε}

theorem Scanner.drain_unended {s s' : Scanner} (hs : s.unended) {x x' : σ}
    {result : Except ε Unit}
    (h : drain listen refusal false s x = (result, x', s')) : s'.unended := by
  fun_induction drain listen refusal false s x with
  | case1 s x t hstep | case2 s x fault t hstep =>
      obtain ⟨-, -, rfl⟩ := by simpa using h
      exact unended_of_next hs hstep
  | case3 s x t hstep ih => exact ih (unended_of_next hs hstep) h
  | case4 s x e depth t hstep y hlisten ih =>
      exact ih (unended_of_next hs hstep) h
  | case5 s x e depth t hstep error y hlisten =>
      obtain ⟨-, -, rfl⟩ := by simpa using h
      exact unended_of_next hs hstep

/-- Where a run was not stopped, there is nothing more to be had. -/
theorem Scanner.drain_idle {s s' : Scanner} (hs : s.unended) {x x' : σ}
    (h : drain listen refusal false s x = (.ok (), x', s')) :
    s'.next false = (.idle, s') := by
  fun_induction drain listen refusal false s x with
  | case1 s x t hstep =>
      obtain ⟨rfl, rfl⟩ := by simpa using h
      have hidle := next_receive_of_idle hs (by rw [hstep]) false []
      rw [hstep, receive_nil, receive_nil, hstep] at hidle
      exact hidle.symm
  | case2 => exact absurd h (by simp)
  | case3 s x t hstep ih => exact ih (unended_of_next hs hstep) h
  | case4 s x e depth t hstep y hlisten ih =>
      exact ih (unended_of_next hs hstep) h
  | case5 => exact absurd h (by simp)

section

variable (listen refusal)

/-- A run that would be written down without a fault comes to the same under any
listener, or it is stopped behind an event, with the rest still to be told. -/
theorem Scanner.drain_noting_cases {s last : Scanner}
    {told all : List (Event × Nat)}
    (h : drain record id false s told = (.ok (), all, last)) (x : σ) :
    (∃ x', drain (noting listen) refusal false s (told, x)
      = (.ok (), (all, x'), last)) ∨
    ∃ error told' x' s',
      drain (noting listen) refusal false s (told, x)
        = (.error error, (told', x'), s') ∧
      told.length < told'.length ∧
      drain record id false s' told' = (.ok (), all, last) := by
  fun_induction drain record id false s told generalizing x with
  | case1 s told t hstep =>
      obtain ⟨rfl, rfl⟩ := by simpa using h
      exact .inl ⟨x, drain_of_idle hstep⟩
  | case2 => exact absurd h (by simp)
  | case3 s told t hstep ih =>
      rw [drain_of_silent hstep]
      exact ih h x
  | case4 s told e depth t hstep told₁ hlisten ih =>
      obtain rfl : told ++ [(e, depth)] = told₁ := congrArg Prod.snd hlisten
      have hlonger : told.length < (told ++ [(e, depth)]).length := by simp
      rw [drain_of_event hstep, noting]
      rcases hl : listen x e depth with ⟨error | ⟨⟩, y⟩
      · exact .inr ⟨error, _, y, t, rfl, hlonger, h⟩
      · rcases ih h y with hok | ⟨error, told', x', s', hstop, hmore, hrest⟩
        · exact .inl hok
        · exact .inr ⟨error, told', x', s', hstop,
            Nat.lt_trans hlonger hmore, hrest⟩
  | case5 => exact absurd h (by simp)

end

/-! ## What is still to be told -/

/-- A scanner that has told some events, and that with more bytes at hand would
tell all that there is, ending up as the last. -/
structure Scanner.Owes (s : Scanner) (told : List (Event × Nat))
    (rest : List UInt8) (all : List (Event × Nat)) (last : Scanner) :
    Prop where
  unended : s.unended
  drain_eq : drain record id false (s.receive rest) told = (.ok (), all, last)

section

variable {s last : Scanner} {told all : List (Event × Nat)}
  {part rest : List UInt8}

/-- A scanner that owes nothing more has told everything. -/
theorem Scanner.Owes.settled (h : s.Owes told [] all last)
    (hidle : s.next false = (.idle, s)) : told = all ∧ s = last := by
  have hdrain := h.drain_eq
  rw [receive_nil, drain_of_idle hidle] at hdrain
  simpa using hdrain

theorem Scanner.Owes.length_le (h : s.Owes told rest all last) :
    told.length ≤ all.length := by
  obtain ⟨result, more, s', hrecord, -⟩ :=
    drain_hears record id false (s.receive rest) told
  rw [h.drain_eq] at hrecord
  obtain ⟨-, rfl, -⟩ := by simpa using hrecord
  rw [List.length_append]
  exact Nat.le_add_right _ _

section

variable (listen refusal)

/-- A call with a part is not stopped, and has told all that it could, or it is
stopped and has told something. In both cases the scanner owes the rest. -/
theorem Scanner.Owes.feed (h : s.Owes told (part ++ rest) all last) (x : σ) :
    ∃ result told' x' s',
      s.feed (noting listen) refusal part (told, x)
        = (result, (told', x'), s') ∧
      s'.Owes told' rest all last ∧
      (result = .ok () → s'.next false = (.idle, s')) ∧
      (∀ error, result = .error error → told.length < told'.length) := by
  obtain ⟨hs, hdrain⟩ := h
  rw [← receive_receive] at hdrain
  have hspart := unended_receive hs part
  rcases hfirst : drain record id false (s.receive part) told with
    ⟨fault | ⟨⟩, told₁, s₁⟩
  · rw [drain_receive_of_error hfirst] at hdrain
    exact absurd hdrain (by simp)
  · rw [drain_receive hspart hfirst] at hdrain
    rw [feed_eq]
    rcases drain_noting_cases listen refusal hfirst x with
      ⟨x', hok⟩ | ⟨error, told', x', s', hstop, hmore, hrest⟩
    · exact ⟨.ok (), told₁, x', s₁, hok,
        ⟨drain_unended hspart hfirst, hdrain⟩,
        fun _ => drain_idle hspart hfirst, nofun⟩
    · have hs' := drain_unended hspart hstop
      refine ⟨.error error, told', x', s', hstop, ⟨hs', ?_⟩, nofun,
        fun _ _ => hmore⟩
      rw [drain_receive hs' hrest]
      exact hdrain

/-- After parts of the bytes, a scanner owes what is told of the others; if the
last part was not stopped, nothing is left of those at hand. -/
theorem Scanner.Owes.callEach {parts : List (List UInt8)}
    (h : s.Owes told (parts.flatten ++ rest) all last) (x : σ) :
    ∃ results told' x' s',
      s.callEach (noting listen) refusal (told, x) (parts.map .feed)
        = (results, (told', x'), s') ∧
      s'.Owes told' rest all last ∧
      (results.getLast? = some (.ok ()) → s'.next false = (.idle, s')) := by
  induction parts generalizing s told x with
  | nil => exact ⟨[], told, x, s, rfl, h, fun h => by cases h⟩
  | cons part parts ih =>
      rw [List.flatten_cons, List.append_assoc] at h
      obtain ⟨result, told₁, x₁, s₁, hcall, howes, hidle, -⟩ :=
        h.feed listen refusal x
      obtain ⟨results, told', x', s', hcalls, howes', hidle'⟩ := ih howes x₁
      refine ⟨result :: results, told', x', s', ?_, howes', fun hlast => ?_⟩
      · rw [List.map_cons, callEach_cons, call, hcall]
        simp only [hcalls]
      · cases parts with
        | nil =>
            obtain ⟨rfl, ⟨rfl, rfl⟩, rfl⟩ := by
              simpa [Scanner.callEach] using hcalls
            exact hidle (by simpa using hlast)
        | cons next parts =>
            refine hidle' ?_
            cases results with
            | nil => cases hcalls
            | cons second results => rwa [List.getLast?_cons_cons] at hlast

/-- Called with nothing time and again, a scanner is not stopped for ever: there
are not more stops than events left. -/
theorem Scanner.Owes.exists_unstopped (h : s.Owes told [] all last) (x : σ) :
    ∃ n, told.length + n ≤ all.length ∧
      (s.callEach (noting listen) refusal (told, x)
        (List.replicate (n + 1) (.feed []))).1.getLast? = some (.ok ()) := by
  induction hleft : all.length - told.length using Nat.strongRecOn
    generalizing s told x with
  | ind left ih =>
      obtain ⟨result, told', x', s', hcall, howes, -, hmore⟩ :=
        @Owes.feed σ ε listen refusal s last told all [] [] h x
      match result with
      | .ok () =>
          refine ⟨0, h.length_le, ?_⟩
          simp [callEach_cons, call, hcall, Scanner.callEach]
      | .error error =>
          have hlonger := hmore error rfl
          have hle := howes.length_le
          obtain ⟨n, hn, hlast⟩ :=
            ih (all.length - told'.length) (by omega) howes x' rfl
          refine ⟨n + 1, by omega, ?_⟩
          rw [List.replicate_succ, callEach_cons, call, hcall]
          simp only [List.getLast?_cons, hlast, Option.getD_some]

end

end

/-- Where a text has no fault, nothing is lost on a listener that refuses some
of its events. Called with all parts and then with nothing, whatever comes of
each call, a scanner is not stopped for ever. And where it was not stopped, the
listener was told just what one is told that never refuses, and the scanner is
where it would be then. -/
theorem Scanner.nothing_lost {parts : List (List UInt8)}
    (hfine : (Scanner.start.feed record id parts.flatten []).1 = .ok ())
    (listen : σ → Event → Nat → Except ε Unit × σ) (refusal : ScanFault → ε)
    (x : σ) :
    let whole := Scanner.start.feed record id parts.flatten []
    let run := fun n => Scanner.start.callEach (noting listen) refusal ([], x)
      (parts.map .feed ++ List.replicate n (.feed []))
    (∃ n ≤ whole.2.1.length + 1, (run n).1.getLast? = some (.ok ())) ∧
    ∀ n, (run n).1.getLast? = some (.ok ()) →
      (run n).2.1.1 = whole.2.1 ∧ (run n).2.2 = whole.2.2 := by
  intro whole run
  have hstart : Scanner.start.Owes [] parts.flatten whole.2.1 whole.2.2 :=
    ⟨by simp [unended, start], Prod.ext hfine rfl⟩
  refine ⟨?_, fun n hlast => ?_⟩
  · rw [← List.append_nil parts.flatten] at hstart
    obtain ⟨results, told, x', s, hcalls, howes, -⟩ :=
      hstart.callEach listen refusal x
    obtain ⟨n, hn, hlast⟩ := howes.exists_unstopped listen refusal x'
    refine ⟨n + 1, by omega, ?_⟩
    simp only [run, callEach_append, hcalls]
    rw [List.getLast?_append, hlast]
    rfl
  · -- The calls with nothing are calls with parts of a text as well.
    have hparts : parts.map ScanCall.feed ++ List.replicate n (.feed [])
        = (parts ++ List.replicate n []).map .feed := by
      rw [List.map_append, List.map_replicate]
    have hflatten : parts.flatten
        = (parts ++ List.replicate n []).flatten ++ [] := by
      simp
    rw [hflatten] at hstart
    obtain ⟨results, told, x', s, hcalls, howes, hidle⟩ :=
      hstart.callEach listen refusal x
    have hrun : run n = (results, (told, x'), s) := by
      simp only [run, hparts, hcalls]
    rw [hrun] at hlast ⊢
    exact howes.settled (hidle hlast)

end

/-- Refuses every other event that it is told. -/
def everyOther (count : Nat) (_ : Event) (_ : Nat) : Except Unit Unit × Nat :=
  (if count % 2 = 0 then .error () else .ok (), count + 1)

/-- A text in parts that end inside a number and a literal. -/
def numberAndWord : List (List UInt8) :=
  ["[1".toUTF8.toList, "2,\x7b\"a\":tr".toUTF8.toList,
    "ue\x7d]".toUTF8.toList]

/-- Stopped four times, the scanner has told all seven events once. -/
theorem Scanner.nothing_lost_of_everyOther :
    (Scanner.start.feed record id numberAndWord.flatten []).1 = .ok () ∧
    ∃ n,
      let run := Scanner.start.callEach (noting everyOther) (fun _ => ())
        ([], 0) (numberAndWord.map .feed ++ List.replicate n (.feed []))
      run.1.getLast? = some (.ok ()) ∧
      run.2.1.1 = [(.startArray, 1), (.number "12", 1), (.startObject, 2),
        (.key "a", 2), (.bool true, 2), (.endObject, 2), (.endArray, 1)] ∧
      run.2.2.depth = 0 := by
  have hfine : (Scanner.start.feed record id numberAndWord.flatten []).1
      = .ok () := by
    have hok : (Scanner.start.feed record id numberAndWord.flatten
      []).1.isOk = true := by decide +kernel
    revert hok
    rcases (Scanner.start.feed record id numberAndWord.flatten []).1 with
      fault | ⟨⟩
    · exact nofun
    · exact fun _ => rfl
  obtain ⟨⟨n, -, hlast⟩, hall⟩ :=
    nothing_lost hfine everyOther (fun _ => ()) 0
  obtain ⟨htold, hlast'⟩ := hall n hlast
  refine ⟨hfine, n, hlast, htold.trans (by decide +kernel), ?_⟩
  rw [hlast']
  decide +kernel

end Ridership.Json

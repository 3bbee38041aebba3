import Ridership.Proofs.ErrorPlaces
import Ridership.Proofs.RefusedEvents

/-!
# No byte is lost and none is read twice

A scanner may be called in any order, with parts of a text and with its end,
and any call may come to a fault or be stopped by the listener. Whatever
happens, the bytes that were fed are those that were taken, as many as the
scanner says, and behind them those that are pending (`Scanner.Accounts`). A
step moves bytes from the one to the other, and a part puts bytes behind the
others; so the account holds after every call, and it is all that is needed
to say how far a fault may be placed.

A fault is placed behind the bytes that were taken, and no byte is ever
given back. So the places of the faults ascend (`Scanner.callEach_faults`).
To know the faults of the text from what a listener refuses, the two are
kept apart (`Scanner.apart`); a run under any other errors is the same run,
seen through a map of the errors (`Scanner.callEach_apart`).

That a call stops is no matter of what is pending: every step that is
followed by another has used up a byte or a signal that was due, so a call
has not more steps than there are pending bytes, but for two
(`Scanner.drain_stops`).
-/

namespace Ridership.Json

/-! ## The bytes at hand -/

/-- The bytes that a call brings. -/
def ScanCall.bytes : ScanCall → List UInt8
  | .feed part => part
  | .finish => []

/-- The bytes that some calls bring, one after another. -/
def bytesFed (calls : List ScanCall) : List UInt8 :=
  calls.flatMap ScanCall.bytes

/-- Of the bytes that were fed, the first are taken, and all others pending. -/
def Scanner.Accounts (s : Scanner) (fed : List UInt8) : Prop :=
  ∃ taken, fed = taken ++ s.pending ∧ s.position.offset = taken.length

theorem bytesFed_cons (call : ScanCall) (calls : List ScanCall) :
    bytesFed (call :: calls) = call.bytes ++ bytesFed calls :=
  List.flatMap_cons

section

variable {s s' : Scanner} {fed : List UInt8}

theorem Scanner.start_accounts : Scanner.start.Accounts [] :=
  ⟨[], rfl, rfl⟩

theorem Scanner.Accounts.receive (h : s.Accounts fed) (part : List UInt8) :
    (s.receive part).Accounts (fed ++ part) := by
  obtain ⟨taken, rfl, hoffset⟩ := h
  exact ⟨taken, List.append_assoc _ _ _, hoffset⟩

/-- Taking bytes keeps the account. -/
theorem Scanner.Accounts.passes (h : s.Accounts fed) (hp : s.Passes s') :
    s'.Accounts fed := by
  obtain ⟨taken, rfl, hoffset⟩ := h
  obtain ⟨more, hpending, hoffset'⟩ := hp
  refine ⟨taken ++ more, ?_, ?_⟩
  · rw [hpending, List.append_assoc]
  · rw [hoffset', hoffset, List.length_append]

theorem Scanner.Accounts.length_eq (h : s.Accounts fed) :
    s.position.offset + s.pending.length = fed.length := by
  obtain ⟨taken, rfl, hoffset⟩ := h
  rw [hoffset, List.length_append]

theorem Scanner.Accounts.pending_eq (h : s.Accounts fed) :
    s.pending = fed.drop s.position.offset := by
  obtain ⟨taken, rfl, hoffset⟩ := h
  rw [hoffset, List.drop_left]

theorem Scanner.Accounts.offset_le (h : s.Accounts fed) :
    s.position.offset ≤ fed.length := by
  have hlength := h.length_eq
  omega

theorem Scanner.Passes.offset_le (h : s.Passes s') :
    s.position.offset ≤ s'.position.offset := by
  obtain ⟨taken, -, hoffset⟩ := h
  omega

end

/-! ## What a call does with them -/

section

variable {σ ε : Type} (listen : σ → Event → Nat → Except ε Unit × σ)
  (refusal : ScanFault → ε)

/-- A run of steps takes bytes, however it ends. -/
theorem Scanner.drain_passes (ending : Bool) (s : Scanner) (x : σ) :
    s.Passes (drain listen refusal ending s x).2.2 := by
  have hnext : ∀ {s s' : Scanner} {step : Step},
      s.next ending = (step, s') → s.Passes s' := by
    intro s s' step hstep
    have hpasses := s.next_passes ending
    rwa [hstep] at hpasses
  fun_induction drain listen refusal ending s x with
  | case1 s x t hstep | case2 s x fault t hstep => exact hnext hstep
  | case3 s x t hstep ih => exact (hnext hstep).trans ih
  | case4 s x e depth t hstep y hlisten ih => exact (hnext hstep).trans ih
  | case5 s x e depth t hstep error y hlisten => exact hnext hstep

theorem Scanner.finish_passes (s : Scanner) (x : σ) :
    s.Passes (s.finish listen refusal x).2.2 := by
  unfold finish
  split
  · exact drain_passes listen refusal true s x
  · exact .nothing rfl rfl

theorem Scanner.call_offset_le (s : Scanner) (x : σ) (call : ScanCall) :
    s.position.offset
      ≤ (s.call listen refusal x call).2.2.position.offset := by
  cases call with
  | feed part =>
      exact (drain_passes listen refusal false (s.receive part) x).offset_le
  | finish => exact (finish_passes listen refusal s x).offset_le

variable {fed : List UInt8}

theorem Scanner.Accounts.call {s : Scanner} (h : s.Accounts fed) (x : σ)
    (call : ScanCall) :
    (s.call listen refusal x call).2.2.Accounts (fed ++ call.bytes) := by
  cases call with
  | feed part =>
      exact (h.receive part).passes
        (drain_passes listen refusal false (s.receive part) x)
  | finish =>
      show Accounts _ (fed ++ [])
      rw [List.append_nil]
      exact h.passes (finish_passes listen refusal s x)

theorem Scanner.Accounts.callEach {s : Scanner} (h : s.Accounts fed) (x : σ)
    (calls : List ScanCall) :
    (s.callEach listen refusal x calls).2.2.Accounts
      (fed ++ bytesFed calls) := by
  induction calls generalizing s x fed with
  | nil =>
      show Accounts s (fed ++ [])
      rwa [List.append_nil]
  | cons call calls ih =>
      rw [callEach_cons, bytesFed_cons, ← List.append_assoc]
      exact ih (h.call listen refusal x call) _

end

/-! ## Where faults are placed -/

section

variable {σ ε : Type}

/-- A listener whose errors cannot be taken for faults of the text. -/
def Scanner.apart (listen : σ → Event → Nat → Except ε Unit × σ) (x : σ)
    (e : Event) (depth : Nat) : Except (ScanFault ⊕ ε) Unit × σ :=
  ((listen x e depth).1.mapError .inr, (listen x e depth).2)

/-- The fault of the text that a call came to. -/
def faultOf? : Except (ScanFault ⊕ ε) Unit → Option ScanFault
  | .error (.inl fault) => some fault
  | _ => none

section

variable (listen : σ → Event → Nat → Except ε Unit × σ)
  (refusal : ScanFault → ε)

theorem Scanner.drain_apart (ending : Bool) (s : Scanner) (x : σ) :
    drain listen refusal ending s x
      = ((drain (apart listen) .inl ending s x).1.mapError
          (Sum.elim refusal id),
        (drain (apart listen) .inl ending s x).2) := by
  refine @drain_map σ σ (ScanFault ⊕ ε) ε (apart listen) listen id
    (Sum.elim refusal id) ?_ .inl ending s x
  intro x e depth
  show listen x e depth = (((listen x e depth).1.mapError .inr).mapError
    (Sum.elim refusal id), (listen x e depth).2)
  rcases listen x e depth with ⟨error | ⟨⟩, y⟩ <;> rfl

/-- Calls come to the same with the errors kept apart. -/
theorem Scanner.callEach_apart (s : Scanner) (x : σ) (calls : List ScanCall) :
    s.callEach listen refusal x calls
      = ((s.callEach (apart listen) .inl x calls).1.map
          (Except.mapError (Sum.elim refusal id)),
        (s.callEach (apart listen) .inl x calls).2) := by
  have hcall : ∀ (s : Scanner) (x : σ) (call : ScanCall),
      s.call listen refusal x call
        = ((s.call (apart listen) .inl x call).1.mapError
            (Sum.elim refusal id),
          (s.call (apart listen) .inl x call).2) := by
    intro s x call
    cases call with
    | feed part => exact drain_apart listen refusal false (s.receive part) x
    | finish =>
        simp only [call, finish]
        split
        · exact drain_apart listen refusal true s x
        · rfl
  induction calls generalizing s x with
  | nil => rfl
  | cons call calls ih =>
      rw [callEach_cons, callEach_cons, hcall]
      dsimp only
      rw [ih, List.map_cons]

end

variable {listen : σ → Event → Nat → Except ε Unit × σ}

theorem Scanner.drain_fault {ending : Bool} {s : Scanner} {x : σ}
    {fault : ScanFault}
    (h : (drain (apart listen) .inl ending s x).1 = .error (.inl fault)) :
    fault.offset
      = (drain (apart listen) .inl ending s x).2.2.position.offset := by
  fun_induction drain (apart listen) .inl ending s x with
  | case1 => cases h
  | case2 s x cause t hstep =>
      cases h
      exact next_fault hstep
  | case3 s x t hstep ih => exact ih h
  | case4 s x e depth t hstep y hlisten ih => exact ih h
  | case5 s x e depth t hstep error y hlisten =>
      -- What the listener refuses is on the other side.
      have herror : (apart listen x e depth).1 = .error (.inl fault) := by
        rw [hlisten]
        exact h
      unfold apart at herror
      cases hheard : (listen x e depth).1 with
      | error refused => rw [hheard] at herror; cases herror
      | ok => rw [hheard] at herror; cases herror

/-- A call that comes to a fault has taken the bytes in front of it. -/
theorem Scanner.call_fault {s : Scanner} {x : σ} {call : ScanCall}
    {fault : ScanFault}
    (h : (s.call (apart listen) .inl x call).1 = .error (.inl fault)) :
    fault.offset
      = (s.call (apart listen) .inl x call).2.2.position.offset := by
  cases call with
  | feed part => exact drain_fault h
  | finish =>
      simp only [call, finish] at h ⊢
      split at h
      · next hstarted =>
          rw [if_pos hstarted]
          exact drain_fault h
      · cases h

variable (listen)

/-- No fault is placed in front of what was taken before, nor in front of an
earlier one. -/
theorem Scanner.callEach_faults (s : Scanner) (x : σ) (calls : List ScanCall) :
    let faults := (s.callEach (apart listen) .inl x calls).1.filterMap faultOf?
    (∀ fault ∈ faults, s.position.offset ≤ fault.offset) ∧
    faults.Pairwise fun fault later => fault.offset ≤ later.offset := by
  induction calls generalizing s x with
  | nil => exact ⟨List.forall_mem_nil _, .nil⟩
  | cons call calls ih =>
      have hle := call_offset_le (apart listen) .inl s x call
      have hplace := @call_fault σ ε listen s x call
      rw [callEach_cons]
      generalize s.call (apart listen) .inl x call = first at hle hplace ⊢
      obtain ⟨result, y, s'⟩ := first
      dsimp only at hle hplace ⊢
      obtain ⟨hrest, hascending⟩ := ih s' y
      have hlater : ∀ fault ∈ (s'.callEach (apart listen) .inl y
          calls).1.filterMap faultOf?, s.position.offset ≤ fault.offset := by
        intro fault hfault
        have hfrom := hrest fault hfault
        omega
      rcases result with (fault | error) | ⟨⟩
      · have hhere := hplace rfl
        refine ⟨List.forall_mem_cons.mpr ⟨by omega, hlater⟩,
          .cons (fun later hmem => ?_) hascending⟩
        have hfrom := hrest later hmem
        omega
      · exact ⟨hlater, hascending⟩
      · exact ⟨hlater, hascending⟩

/-- A fault is placed among the bytes that were fed up to then. -/
theorem Scanner.Accounts.fault_le {s : Scanner} {fed : List UInt8}
    (h : s.Accounts fed) (x : σ) {calls : List ScanCall} {n : Nat}
    {fault : ScanFault}
    (hfault : (s.callEach (apart listen) .inl x calls).1[n]?
      = some (.error (.inl fault))) :
    fault.offset ≤ (fed ++ bytesFed (calls.take (n + 1))).length := by
  induction calls generalizing s x fed n with
  | nil => cases hfault
  | cons call calls ih =>
      have hcall := h.call (apart listen) .inl x call
      rw [callEach_cons] at hfault
      rw [List.take_succ_cons, bytesFed_cons, ← List.append_assoc]
      cases n with
      | zero =>
          have hfirst := Option.some.inj hfault
          have hplace := call_fault hfirst
          have hle := hcall.offset_le
          rw [List.length_append]
          omega
      | succ n => exact ih hcall _ hfault

end

/-! ## How far a call goes -/

section

variable {σ ε : Type} (listen : σ → Event → Nat → Except ε Unit × σ)
  (refusal : ScanFault → ε) (ending : Bool)

/-- What a scanner comes to in so many steps: all but the last are followed by
another. -/
inductive Scanner.DrainsIn :
    Nat → Scanner → σ → Except ε Unit × σ × Scanner → Prop
  | idle {s s' : Scanner} {x : σ} (hstep : s.next ending = (.idle, s')) :
      DrainsIn 1 s x (.ok (), x, s')
  | fault {s s' : Scanner} {x : σ} {fault : ScanFault}
      (hstep : s.next ending = (.fault fault, s')) :
      DrainsIn 1 s x (.error (refusal fault), x, s')
  | refused {s s' : Scanner} {x y : σ} {e : Event} {depth : Nat} {error : ε}
      (hstep : s.next ending = (.event e depth, s'))
      (hlisten : listen x e depth = (.error error, y)) :
      DrainsIn 1 s x (.error error, y, s')
  | silent {n : Nat} {s s' : Scanner} {x : σ}
      {result : Except ε Unit × σ × Scanner}
      (hstep : s.next ending = (.silent, s'))
      (hrest : DrainsIn n s' x result) : DrainsIn (n + 1) s x result
  | event {n : Nat} {s s' : Scanner} {x y : σ} {e : Event} {depth : Nat}
      {result : Except ε Unit × σ × Scanner}
      (hstep : s.next ending = (.event e depth, s'))
      (hlisten : listen x e depth = (.ok (), y))
      (hrest : DrainsIn n s' y result) : DrainsIn (n + 1) s x result

theorem Scanner.load_le (s : Scanner) : s.load ≤ s.pending.length + 1 := by
  unfold load
  split <;> omega

/-- Whatever is pending, a run of steps comes to an end. -/
theorem Scanner.drain_stops (s : Scanner) (x : σ) :
    ∃ n ≤ s.pending.length + 2,
      DrainsIn listen refusal ending n s x
        (drain listen refusal ending s x) := by
  have hnext : ∀ {s s' : Scanner} {step : Step}, step.goesOn →
      s.next ending = (step, s') → s'.load < s.load := by
    intro s s' step hgoes hstep
    have hload := s.next_load ending (by rw [hstep]; exact hgoes)
    rwa [hstep] at hload
  have hload : ∃ n ≤ s.load + 1, DrainsIn listen refusal ending n s x
      (drain listen refusal ending s x) := by
    fun_induction drain listen refusal ending s x with
    | case1 s x t hstep => exact ⟨1, by omega, .idle hstep⟩
    | case2 s x fault t hstep => exact ⟨1, by omega, .fault hstep⟩
    | case3 s x t hstep ih =>
        obtain ⟨n, hn, hrest⟩ := ih
        have hless := hnext rfl hstep
        exact ⟨n + 1, by omega, .silent hstep hrest⟩
    | case4 s x e depth t hstep y hlisten ih =>
        obtain ⟨n, hn, hrest⟩ := ih
        have hless := hnext rfl hstep
        exact ⟨n + 1, by omega, .event hstep hlisten hrest⟩
    | case5 s x e depth t hstep error y hlisten =>
        exact ⟨1, by omega, .refused hstep hlisten⟩
  obtain ⟨n, hn, hdrains⟩ := hload
  have hle := s.load_le
  exact ⟨n, by omega, hdrains⟩

end

/-! ## Nothing is held back -/

section

variable {σ ε : Type} {listen : σ → Event → Nat → Except ε Unit × σ}
  {refusal : ScanFault → ε}

theorem Scanner.callEach_unended {s : Scanner} (hs : s.unended) (x : σ)
    (parts : List (List UInt8)) :
    (s.callEach listen refusal x (parts.map .feed)).2.2.unended := by
  induction parts generalizing s x with
  | nil => exact hs
  | cons part parts ih =>
      rw [List.map_cons, callEach_cons]
      refine ih ?_ _
      exact drain_unended (unended_receive hs part) rfl

/-- A scanner whose last part was not stopped has nothing more to tell. -/
theorem Scanner.next_of_unstopped {s : Scanner} (hs : s.unended) {x : σ}
    {parts : List (List UInt8)}
    (hok : (s.callEach listen refusal x (parts.map .feed)).1.getLast?
      = some (.ok ())) :
    let last := (s.callEach listen refusal x (parts.map .feed)).2.2
    last.next false = (.idle, last) := by
  rcases List.eq_nil_or_concat' parts with rfl | ⟨init, part, rfl⟩
  · cases hok
  · rw [List.map_append, List.map_singleton, callEach_concat] at hok ⊢
    rw [List.getLast?_concat, Option.some.injEq] at hok
    have hinit := @callEach_unended σ ε listen refusal s hs x init
    exact drain_idle (unended_receive hinit part) (Prod.ext hok rfl)

end

/-- Every byte is accounted for, whatever a scanner is called with and whatever
comes of a call. Those that were fed are those that were taken, as many as the
scanner says, and behind them those that are pending. The faults of the text,
kept apart from what the listener refuses, are placed in ascending order, each
of them among the bytes that were fed up to then.

While only parts were fed and the last of them was not stopped, nothing is held
back: without more bytes no listener is told anything, and nothing changes. And
however much is pending, a call comes to an end, in not more steps than there
are bytes but for two. -/
theorem Scanner.bytes_accounted {σ ε : Type}
    (listen : σ → Event → Nat → Except ε Unit × σ) (refusal : ScanFault → ε)
    (x : σ) (calls : List ScanCall) :
    let run := Scanner.start.callEach (apart listen) .inl x calls
    let last := run.2.2
    (Scanner.start.callEach listen refusal x calls
      = (run.1.map (Except.mapError (Sum.elim refusal id)), run.2)) ∧
    last.position.offset + last.pending.length = (bytesFed calls).length ∧
    last.pending = (bytesFed calls).drop last.position.offset ∧
    (run.1.filterMap faultOf?).Pairwise
      (fun fault later => fault.offset ≤ later.offset) ∧
    (∀ n fault, run.1[n]? = some (.error (.inl fault)) →
      fault.offset ≤ (bytesFed (calls.take (n + 1))).length) ∧
    (∀ parts : List (List UInt8), calls = parts.map .feed →
      run.1.getLast? = some (.ok ()) →
      ∀ (τ δ : Type) (listen' : τ → Event → Nat → Except δ Unit × τ)
        (refusal' : ScanFault → δ) (y : τ),
        last.feed listen' refusal' [] y = (.ok (), y, last)) ∧
    ∀ (ending : Bool) (s : Scanner) (y : σ), ∃ n ≤ s.pending.length + 2,
      DrainsIn listen refusal ending n s y
        (drain listen refusal ending s y) := by
  intro run last
  have haccounts : last.Accounts (bytesFed calls) :=
    start_accounts.callEach (apart listen) .inl x calls
  refine ⟨callEach_apart listen refusal Scanner.start x calls,
    haccounts.length_eq, haccounts.pending_eq,
    (callEach_faults listen Scanner.start x calls).2, ?_, ?_,
    drain_stops listen refusal⟩
  · intro n fault hfault
    exact start_accounts.fault_le listen x hfault
  · intro parts hparts hok τ δ listen' refusal' y
    have hstart : Scanner.start.unended := by simp [unended, start]
    have hidle : last.next false = (.idle, last) := by
      simp only [run, hparts] at hok
      simp only [last, run, hparts]
      exact next_of_unstopped hstart hok
    rw [feed_eq, receive_nil, drain_of_idle hidle]

/-- An array that lacks a comma, in parts that end inside a string, and nothing
more for two calls. -/
def commaMissing : List ScanCall :=
  [.feed "[1 \"a".toUTF8.toList, .feed "\"]".toUTF8.toList, .feed [],
    .feed []]

/-- The listener stops the first call and the third, and the second comes to a
fault. Behind the fourth nothing is left to be told. -/
theorem Scanner.bytes_accounted_of_commaMissing :
    let run := Scanner.start.callEach (apart everyOther) .inl 0 commaMissing
    (∃ fault, run.1[1]? = some (.error (.inl fault)) ∧
      fault.offset ≤ (bytesFed (commaMissing.take 2)).length) ∧
    run.1.getLast? = some (.ok ()) ∧
    run.2.2.feed record id [] [] = (.ok (), [], run.2.2) ∧
    run.2.2.pending
      = (bytesFed commaMissing).drop run.2.2.position.offset := by
  intro run
  obtain ⟨-, -, hpending, -, hplaced, hheld, -⟩ :=
    bytes_accounted everyOther (fun _ => ()) 0 commaMissing
  have hfault : ∃ fault, run.1[1]? = some (.error (.inl fault)) := by
    have hsome : (run.1[1]?.bind faultOf?).isSome = true := by decide +kernel
    generalize run.1[1]? = second at hsome ⊢
    rcases second with _ | (fault | _) | _
    · cases hsome
    · exact ⟨fault, rfl⟩
    · cases hsome
    · cases hsome
  have hok : run.1.getLast? = some (.ok ()) := by
    have hisOk : run.1.getLast?.map Except.isOk = some true := by
      decide +kernel
    generalize run.1.getLast? = last at hisOk ⊢
    rcases last with _ | _ | ⟨⟩
    · cases hisOk
    · cases hisOk
    · rfl
  obtain ⟨fault, hsecond⟩ := hfault
  have hsilent := hheld [_, _, [], []] rfl hok _ _ record id []
  exact ⟨⟨fault, hsecond, hplaced 1 fault hsecond⟩, hok, hsilent, hpending⟩

end Ridership.Json

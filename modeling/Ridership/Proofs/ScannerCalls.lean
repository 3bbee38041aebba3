import Ridership.Proofs.Listening

/-!
# Whatever comes of a call

A reading of a text ends at the first failure. A scanner does not: whoever holds
it may go on after a text was refused, or after he refused an event himself.
Here a scanner is called time and again, with parts of a text and with its end
in any order, and what comes of a call does not stop the next
(`Scanner.callEach`).

What is told over many calls is only known to a listener that remembers it, and
one that refuses an event was told it all the same. So any listener is given
something to write with (`Scanner.noting`). What every step of a scanner keeps,
together with the events written down so far, all calls keep
(`Scanner.callEach_keeps`).

A step takes bytes from the front of those that are pending, and its place in
the text moves on by as many (`Scanner.next_passes`).
-/

namespace Ridership.Json

/-- What a scanner is called with: another part of its text, or the end. -/
inductive ScanCall where
  | feed (part : List UInt8)
  | finish

/-- What is told by a step. -/
def Step.told : Step → List (Event × Nat)
  | .event e depth => [(e, depth)]
  | .silent | .idle | .fault _ => []

/-! ## What a step takes -/

/-- From one scanner to another some of the pending bytes are taken, and all
others stay as they are. -/
def Scanner.Passes (s s' : Scanner) : Prop :=
  ∃ taken, s.pending = taken ++ s'.pending ∧
    s'.position.offset = s.position.offset + taken.length

section

variable {s s' s'' : Scanner}

theorem Scanner.Passes.nothing (hpending : s'.pending = s.pending)
    (hposition : s'.position = s.position) : s.Passes s' :=
  ⟨[], hpending.symm, by rw [hposition]; rfl⟩

theorem Scanner.Passes.trans (h : s.Passes s') (h' : s'.Passes s'') :
    s.Passes s'' := by
  obtain ⟨taken, hpending, hoffset⟩ := h
  obtain ⟨more, hpending', hoffset'⟩ := h'
  refine ⟨taken ++ more, ?_, ?_⟩
  · rw [hpending, hpending', List.append_assoc]
  · rw [hoffset', hoffset, List.length_append, Nat.add_assoc]

theorem skipBlanks_passes (ending returned : Bool) (p : Position)
    (bytes : List UInt8) :
    ∃ taken, bytes = taken ++ (skipBlanks ending returned p bytes).2 ∧
      (skipBlanks ending returned p bytes).1.offset
        = p.offset + taken.length := by
  have htake {p p' q : Position} {b : UInt8} {rest left : List UInt8}
      (hp : p'.offset = p.offset + 1) :
      (∃ taken, rest = taken ++ left ∧ q.offset = p'.offset + taken.length) →
      ∃ taken, b :: rest = taken ++ left ∧
        q.offset = p.offset + taken.length := by
    rintro ⟨taken, rfl, hq⟩
    exact ⟨b :: taken, rfl, by rw [hq, hp, List.length_cons]; omega⟩
  fun_induction skipBlanks ending returned p bytes with
  | case1 | case6 => exact ⟨[], rfl, rfl⟩
  | case4 returned p rest hwaits =>
      obtain ⟨rfl, rfl⟩ : ending = false ∧ rest = [] := by simpa using hwaits
      exact ⟨[], rfl, rfl⟩
  | case2 returned p b rest hb ih | case5 returned p rest hs hl hwaits ih =>
      exact htake rfl ih
  | case3 returned p rest hs ih =>
      refine htake ?_ ih
      split <;> rfl

theorem Scanner.tell_passes (s : Scanner) (signal : Signal) :
    s.Passes (s.tell signal).2 := by
  cases signal with
  | ended => exact .nothing rfl rfl
  | event e => cases e <;> exact .nothing rfl rfl

theorem Scanner.react_passes (s : Scanner) (p : Position) (length : Nat)
    (t : Token) : s.Passes (s.react p length t).2 := by
  unfold react
  rcases s.grammar.accept t with ⟨g, signal | _ | ⟨fault, due⟩⟩
  · exact tell_passes { s with grammar := g } signal
  · exact .nothing rfl rfl
  · exact .nothing rfl rfl

theorem Scanner.take_passes {b : UInt8} {rest : List UInt8} {more : Nat}
    (h : s.pending = b :: rest) (hmore : more ≤ rest.length) :
    s.Passes (s.take more rest) := by
  refine ⟨b :: rest.take more, ?_, ?_⟩
  · rw [h, List.cons_append]
    exact congrArg (b :: ·) (List.take_append_drop more rest).symm
  · rw [List.length_cons, List.length_take_of_le hmore]
    rfl

theorem Scanner.token_passes (s : Scanner) (ending : Bool) :
    s.Passes (s.token ending).2 := by
  unfold token
  split
  · split
    · exact react_passes s _ _ _
    · exact .nothing rfl rfl
  · next b rest hpending =>
      have hwithin := Token.read_within ending b rest
      split
      · split <;> exact .nothing rfl rfl
      · next hread =>
          rw [hread] at hwithin
          exact (take_passes hpending hwithin.2).trans (react_passes _ _ _ _)
      · next hread =>
          rw [hread] at hwithin
          exact take_passes hpending hwithin

theorem Scanner.open_passes (s : Scanner) : s.Passes s.open := by
  unfold Scanner.open
  split
  · dsimp only
    split
    · next hmark =>
        refine ⟨byteOrderMark, ?_, rfl⟩
        rw [← hmark]
        exact (List.take_append_drop 3 s.pending).symm
    · exact .nothing rfl rfl
  · exact .nothing rfl rfl

theorem Scanner.skip_passes (s : Scanner) (ending : Bool) :
    s.Passes (s.skip ending) :=
  skipBlanks_passes ending false s.position s.pending

theorem Scanner.next_passes (s : Scanner) (ending : Bool) :
    s.Passes (s.next ending).2 := by
  unfold next
  split
  · exact tell_passes { s with due := none } _
  · split
    · exact .nothing rfl rfl
    · exact s.open_passes.trans
        ((s.open.skip_passes ending).trans (token_passes _ ending))

end

/-! ## One call after another -/

section

variable {σ ε : Type}

/-- A listener that also writes down all it is told, be it that it refuses. -/
def Scanner.noting (listen : σ → Event → Nat → Except ε Unit × σ)
    (notes : List (Event × Nat) × σ) (e : Event) (depth : Nat) :
    Except ε Unit × List (Event × Nat) × σ :=
  ((listen notes.2 e depth).1, notes.1 ++ [(e, depth)],
    (listen notes.2 e depth).2)

/-- Takes a part of the text, or its end. -/
def Scanner.call (listen : σ → Event → Nat → Except ε Unit × σ)
    (refusal : ScanFault → ε) (s : Scanner) (x : σ) :
    ScanCall → Except ε Unit × σ × Scanner
  | .feed part => s.feed listen refusal part x
  | .finish => s.finish listen refusal x

/-- Calls a scanner one time after another, whatever comes of each. -/
def Scanner.callEach (listen : σ → Event → Nat → Except ε Unit × σ)
    (refusal : ScanFault → ε) (s : Scanner) (x : σ) :
    List ScanCall → List (Except ε Unit) × σ × Scanner
  | [] => ([], x, s)
  | call :: calls =>
      let (result, x, s) := s.call listen refusal x call
      let (results, x, s) := s.callEach listen refusal x calls
      (result :: results, x, s)

variable {listen : σ → Event → Nat → Except ε Unit × σ}
  {refusal : ScanFault → ε}

theorem Scanner.callEach_cons (s : Scanner) (x : σ) (call : ScanCall)
    (calls : List ScanCall) :
    s.callEach listen refusal x (call :: calls) =
      let first := s.call listen refusal x call
      let rest := first.2.2.callEach listen refusal first.2.1 calls
      (first.1 :: rest.1, rest.2) := rfl

theorem Scanner.callEach_append (s : Scanner) (x : σ)
    (calls more : List ScanCall) :
    s.callEach listen refusal x (calls ++ more) =
      let first := s.callEach listen refusal x calls
      let rest := first.2.2.callEach listen refusal first.2.1 more
      (first.1 ++ rest.1, rest.2) := by
  induction calls generalizing s x with
  | nil => rfl
  | cons call calls ih =>
      rw [List.cons_append, callEach_cons, callEach_cons]
      simp only [ih, List.cons_append]

theorem Scanner.callEach_concat (s : Scanner) (x : σ)
    (calls : List ScanCall) (call : ScanCall) :
    s.callEach listen refusal x (calls ++ [call]) =
      let first := s.callEach listen refusal x calls
      let last := first.2.2.call listen refusal first.2.1 call
      (first.1 ++ [last.1], last.2) :=
  callEach_append s x calls [call]

/-! ## What steps keep -/

variable {P : Scanner → List (Event × Nat) → Prop} {faulty : Prop}

section

variable {ending : Bool}
  (hnext : ∀ s told, P s told →
    (∀ fault, (s.next ending).1 = .fault fault → faulty) →
    P (s.next ending).2 (told ++ (s.next ending).1.told))
include hnext

theorem Scanner.next_keeps {s t : Scanner} {step : Step}
    {told : List (Event × Nat)} (h : s.next ending = (step, t))
    (hs : P s told) (hfaulty : ∀ fault, step = .fault fault → faulty) :
    P t (told ++ step.told) := by
  have hkept := hnext s told hs
  rw [h] at hkept
  exact hkept hfaulty

theorem Scanner.next_keeps_notes {s t : Scanner} {e : Event} {depth : Nat}
    {notes later : List (Event × Nat) × σ} {result : Except ε Unit}
    (h : s.next ending = (.event e depth, t)) (hs : P s notes.1)
    (hlisten : noting listen notes e depth = (result, later)) :
    P t later.1 := by
  obtain rfl : (notes.1 ++ [(e, depth)], (listen notes.2 e depth).2) = later :=
    congrArg Prod.snd hlisten
  exact next_keeps hnext h hs fun _ => Step.noConfusion

/-- What is kept by every step, with what is told by it, a run keeps. Steps to a
fault count only for a run that ends with one. -/
theorem Scanner.drain_keeps_notes {s : Scanner}
    {notes : List (Event × Nat) × σ} (hs : P s notes.1)
    (hfaulty : ∀ fault,
      (drain (noting listen) refusal ending s notes).1
        = .error (refusal fault) → faulty) :
    P (drain (noting listen) refusal ending s notes).2.2
      (drain (noting listen) refusal ending s notes).2.1.1 := by
  fun_induction drain (noting listen) refusal ending s notes with
  | case1 s notes t h =>
      have hkept := next_keeps hnext h hs fun _ => Step.noConfusion
      rwa [Step.told, List.append_nil] at hkept
  | case2 s notes fault t h =>
      have hkept := next_keeps hnext h hs fun _ _ => hfaulty fault rfl
      rwa [Step.told, List.append_nil] at hkept
  | case3 s notes t h ih =>
      have hkept := next_keeps hnext h hs fun _ => Step.noConfusion
      rw [Step.told, List.append_nil] at hkept
      exact ih hkept hfaulty
  | case4 s notes e depth t h later hlisten ih =>
      exact ih (next_keeps_notes hnext h hs hlisten) hfaulty
  | case5 s notes e depth t h error later hlisten =>
      exact next_keeps_notes hnext h hs hlisten

/-- The last step of a run that was not stopped came to nothing. -/
theorem Scanner.drain_last_step {s last : Scanner}
    {notes notes' : List (Event × Nat) × σ} (hs : P s notes.1)
    (h : drain (noting listen) refusal ending s notes
      = (.ok (), notes', last)) :
    ∃ s', P s' notes'.1 ∧ s'.next ending = (.idle, last) := by
  fun_induction drain (noting listen) refusal ending s notes with
  | case1 s notes t hidle =>
      obtain ⟨rfl, rfl⟩ := by simpa using h
      exact ⟨s, hs, hidle⟩
  | case2 | case5 => exact absurd h (by simp)
  | case3 s notes t hsilent ih =>
      have hkept := next_keeps hnext hsilent hs fun _ => Step.noConfusion
      rw [Step.told, List.append_nil] at hkept
      exact ih hkept h
  | case4 s notes e depth t hevent later hlisten ih =>
      exact ih (next_keeps_notes hnext hevent hs hlisten) h

end

theorem Scanner.callEach_keeps
    (hreceive : ∀ s told part, P s told → P (s.receive part) told)
    (hnext : ∀ s told ending, P s told →
      (∀ fault, (s.next ending).1 = .fault fault → faulty) →
      P (s.next ending).2 (told ++ (s.next ending).1.told))
    {s : Scanner} {notes : List (Event × Nat) × σ} (hs : P s notes.1)
    {calls : List ScanCall}
    (hfaulty : ∀ fault, .error (refusal fault)
      ∈ (s.callEach (noting listen) refusal notes calls).1 → faulty) :
    P (s.callEach (noting listen) refusal notes calls).2.2
      (s.callEach (noting listen) refusal notes calls).2.1.1 := by
  induction calls generalizing s notes with
  | nil => exact hs
  | cons call calls ih =>
      rw [callEach_cons] at hfaulty ⊢
      refine ih ?_ fun fault h => hfaulty fault (List.mem_cons_of_mem _ h)
      have hfirst : ∀ fault, (s.call (noting listen) refusal notes call).1
          = .error (refusal fault) → faulty := fun fault h =>
        hfaulty fault (h ▸ List.mem_cons_self)
      cases call with
      | feed part =>
          exact drain_keeps_notes (fun s told => hnext s told false)
            (hreceive s notes.1 part hs) hfirst
      | finish =>
          rw [call, finish] at hfirst ⊢
          split
          · next h =>
              rw [if_pos h] at hfirst
              exact drain_keeps_notes (fun s told => hnext s told true) hs hfirst
          · exact hs

end

end Ridership.Json

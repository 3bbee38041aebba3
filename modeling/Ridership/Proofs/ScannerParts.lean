import Ridership.Json.Scanner
import Ridership.Proofs.TokenStable

/-!
# A text may arrive in any parts

A scanner that has told all it could from the bytes at hand stands where it
would have passed through, had more bytes been there from the start. That is
one lemma about a step and one about a run of steps. A step that comes to
something comes to the same with more bytes at hand, and leaves those bytes
pending (`next_receive`). A step that comes to nothing may have taken blanks
and the byte order mark, and the next step makes no difference between blanks
that it takes and blanks that were taken before (`next_receive_of_idle`).

So a run over some bytes, let go on with more, is the run over all of them
(`drain_receive`). The end of the text is only another way of going on, and
the same lemma covers it.

What a scanner still has to tell of an ended text is the one thing that more
bytes must not come behind; `due ≠ some .ended` rules it out, and it can only
become due when the text is ending.
-/

namespace Ridership.Json

/-- The scanner with another part of the text at hand. -/
def Scanner.receive (s : Scanner) (part : List UInt8) : Scanner :=
  { s with
    started := s.started || part.any (fun b => !isBlank b)
    pending := s.pending ++ part }

@[simp] theorem Scanner.receive_nil (s : Scanner) : s.receive [] = s := by
  simp [receive]

@[simp] theorem Scanner.receive_receive (s : Scanner) (a b : List UInt8) :
    (s.receive a).receive b = s.receive (a ++ b) := by
  simp [receive, Bool.or_assoc]

theorem Scanner.feed_eq {σ ε : Type}
    (listen : σ → Event → Nat → Except ε Unit × σ) (refusal : ScanFault → ε)
    (s : Scanner) (part : List UInt8) (x : σ) :
    s.feed listen refusal part x
      = drain listen refusal false (s.receive part) x := rfl

/-! ## The parts of a step -/

theorem Scanner.tell_receive (s : Scanner) (part : List UInt8)
    (signal : Signal) :
    (s.receive part).tell signal
      = ((s.tell signal).1, (s.tell signal).2.receive part) := by
  cases signal with
  | ended => rfl
  | event e => cases e <;> rfl

theorem Scanner.tell_due (s : Scanner) (signal : Signal) :
    (s.tell signal).2.due = s.due := by
  cases signal with
  | ended => rfl
  | event e => cases e <;> rfl

theorem Scanner.react_receive (s : Scanner) (part : List UInt8) (p : Position)
    (length : Nat) (t : Token) :
    (s.receive part).react p length t
      = ((s.react p length t).1, (s.react p length t).2.receive part) := by
  have hg : (s.receive part).grammar = s.grammar := rfl
  unfold react
  rw [hg]
  cases s.grammar.accept t with
  | mk grammar reaction =>
      cases reaction with
      | signal signal => exact tell_receive { s with grammar } part signal
      | silent => rfl
      | fault fault due => rfl

theorem Scanner.take_receive (s : Scanner) {more : Nat}
    {rest : List UInt8} (h : more ≤ rest.length) (part : List UInt8) :
    (s.receive part).take more (rest ++ part)
      = (s.take more rest).receive part := by
  unfold take receive
  rw [List.drop_append_of_le_length h]

theorem Scanner.open_receive (s : Scanner)
    (h : s.fresh = true → 3 ≤ s.pending.length) (part : List UInt8) :
    (s.receive part).open = s.open.receive part := by
  have hf : (s.receive part).fresh = s.fresh := rfl
  have hp : (s.receive part).pending = s.pending ++ part := rfl
  unfold Scanner.open
  rw [hf, hp]
  cases hfresh : s.fresh with
  | false => rfl
  | true =>
      have hlen := h hfresh
      simp only [if_true]
      rw [List.take_append_of_le_length hlen,
        List.drop_append_of_le_length hlen]
      split <;> rfl

theorem Scanner.skip_receive (s : Scanner) (ending : Bool)
    (part : List UInt8) :
    (s.receive part).skip ending
      = ((s.skip false).receive part).skip ending := by
  have h := @skipBlanks_append false s.position s.pending Bool.noConfusion
    ending part
  have hp : (s.receive part).pending = s.pending ++ part := rfl
  have hpos : (s.receive part).position = s.position := rfl
  unfold skip
  rw [hp, hpos, h]
  rfl

theorem Scanner.skip_of_head {s : Scanner} {b : UInt8} {rest : List UInt8}
    (hp : s.pending = b :: rest) (hs : ¬(b = 0x20 ∨ b = 0x09))
    (hl : b ≠ 0x0A) (hc : b ≠ 0x0D) (ending : Bool) :
    s.skip ending = s := by
  unfold skip
  rw [hp, skipBlanks_other hs hl hc]
  simp only []
  rw [← hp]

theorem Scanner.token_receive {s : Scanner} {b : UInt8} {rest : List UInt8}
    (hp : s.pending = b :: rest)
    (h : Token.read false b rest ≠ .unfinished) (ending : Bool)
    (part : List UInt8) :
    (s.receive part).token ending
      = ((s.token false).1, (s.token false).2.receive part) := by
  have hpr : (s.receive part).pending = b :: (rest ++ part) := by
    simp [receive, hp]
  have hin := Token.read_within false b rest
  unfold token
  rw [hp, hpr]
  simp only []
  rw [Token.read_append h ending part]
  cases hr : Token.read false b rest with
  | unfinished => exact absurd hr h
  | token t more =>
      rw [hr] at hin
      simp only []
      rw [take_receive s hin.2 part]
      exact react_receive _ _ _ _ _
  | fault fault first last more =>
      rw [hr] at hin
      simp only []
      rw [take_receive s hin part]
      rfl

/-! ## The end of a text -/

theorem Grammar.value_told {g : Grammar} {t : Token} (ht : t ≠ .endOfText) :
    (g.value t).2.told ≠ some .ended := by
  cases t with
  | openObject | openArray =>
      simp only [value, enter]
      split <;> simp [Reaction.told]
  | endOfText => exact absurd rfl ht
  | _ => simp [value, Reaction.told]

theorem Grammar.key_told (g : Grammar) (t : Token) :
    (g.key t).2.told ≠ some .ended := by
  cases t <;> simp [key, Reaction.told]

/-- Only the end of a text is told as its end. -/
theorem Grammar.accept_told {g : Grammar} {t : Token} (ht : t ≠ .endOfText) :
    (g.accept t).2.told ≠ some .ended := by
  unfold accept
  split
  case h_1 =>
      split
      · split
        · exact absurd rfl ht
        · simp [Reaction.told]
      · exact value_told ht
  case h_2 | h_3 =>
      split
      · simp [Reaction.told]
      · exact key_told g t
  case h_4 =>
      split
      · simp [Reaction.told]
      · exact value_told ht
  case h_5 => exact value_told ht
  case h_6 => split <;> simp [Reaction.told]
  case h_7 | h_8 =>
      split
      · simp [Reaction.told]
      · exact value_told ht
  case h_9 =>
      split
      · simp [Reaction.told]
      · simp [Reaction.told]
      · exact value_told ht

/-! ## Steps -/

/-- The scanner has not told the end of its text, and is not about to. -/
def Scanner.unended (s : Scanner) : Prop := s.due ≠ some .ended

theorem Scanner.unended_receive {s : Scanner} (h : s.unended)
    (part : List UInt8) : (s.receive part).unended := h

theorem Scanner.begun_of_not_waiting {s : Scanner}
    (h : ¬(s.fresh && !false && decide ((s.pending.take 3).length < 3)) = true)
    (hf : s.fresh = true) : 3 ≤ s.pending.length := by
  rw [hf] at h
  simp only [Bool.not_false, Bool.and_self, Bool.true_and, decide_eq_true_eq,
    List.length_take] at h
  omega

/-- The blanks in front of a text that may begin are taken, and so is the byte
order mark. -/
def Scanner.settled (s : Scanner) : Scanner := s.open.skip false

theorem Scanner.open_fresh (s : Scanner) : s.open.fresh = false := by
  unfold Scanner.open
  split
  · simp only []
    split <;> rfl
  · next h => exact Bool.eq_false_iff.mpr h

theorem Scanner.open_due (s : Scanner) : s.open.due = s.due := by
  unfold Scanner.open
  split
  · simp only []
    split <;> rfl
  · rfl

theorem Scanner.settled_fresh (s : Scanner) : s.settled.fresh = false :=
  s.open_fresh

theorem Scanner.settled_due (s : Scanner) : s.settled.due = s.due :=
  s.open_due

theorem Scanner.open_of_not_fresh {s : Scanner} (h : s.fresh = false) :
    s.open = s := by
  unfold Scanner.open
  rw [if_neg (by simp [h])]

theorem Scanner.next_of_begun {s : Scanner} (hd : s.due = none)
    (hb : s.fresh = true → 3 ≤ s.pending.length) (ending : Bool) :
    s.next ending = (s.open.skip ending).token ending := by
  unfold next
  rw [hd]
  simp only []
  rw [if_neg]
  cases hf : s.fresh with
  | false => simp
  | true =>
      have hlen := hb hf
      simp only [Bool.true_and, Bool.and_eq_true, decide_eq_true_eq,
        List.length_take, not_and]
      omega

/-- More bytes at hand make no difference to what was settled before. -/
theorem Scanner.next_receive_eq {s : Scanner} (hd : s.due = none)
    (hb : s.fresh = true → 3 ≤ s.pending.length) (ending : Bool)
    (part : List UInt8) :
    (s.receive part).next ending
      = ((s.settled.receive part).skip ending).token ending := by
  have hbr : (s.receive part).fresh = true →
      3 ≤ (s.receive part).pending.length := by
    intro hf
    have hlen := hb hf
    simp only [receive, List.length_append]
    omega
  rw [@next_of_begun (s.receive part) hd hbr ending, open_receive s hb,
    skip_receive]
  rfl

theorem Scanner.next_settled_receive {s : Scanner} (hd : s.due = none)
    (ending : Bool) (part : List UInt8) :
    (s.settled.receive part).next ending
      = ((s.settled.receive part).skip ending).token ending := by
  have hfresh : (s.settled.receive part).fresh = false := s.settled_fresh
  have hdue : (s.settled.receive part).due = none := s.settled_due.trans hd
  rw [next_of_begun hdue (by simp [hfresh]), open_of_not_fresh hfresh]

/-- What is told next by a scanner that has nothing due: nothing at all while
it waits or a token is unfinished, and otherwise what its token comes to. -/
theorem Scanner.next_cases {s : Scanner} (hd : s.due = none) :
    ((s.fresh = true ∧ s.pending.length < 3) ∧ s.next false = (.idle, s)) ∨
    ((s.fresh = true → 3 ≤ s.pending.length) ∧
      (((∀ b rest, s.settled.pending = b :: rest →
            Token.read false b rest = .unfinished) ∧
          s.next false = (.idle, s.settled)) ∨
        ∃ b rest, s.settled.pending = b :: rest ∧
          Token.read false b rest ≠ .unfinished ∧
          s.next false = s.settled.token false)) := by
  by_cases hw : (s.fresh && !false &&
      decide ((s.pending.take 3).length < 3)) = true
  · refine .inl ⟨?_, ?_⟩
    · simp only [Bool.not_false, Bool.and_true, Bool.and_eq_true,
        decide_eq_true_eq, List.length_take] at hw
      exact ⟨hw.1, by omega⟩
    · unfold next
      rw [hd]
      simp only []
      rw [if_pos hw]
  · have hb := begun_of_not_waiting hw
    refine .inr ⟨hb, ?_⟩
    have hnext : s.next false = s.settled.token false := next_of_begun hd hb false
    cases hp : s.settled.pending with
    | nil =>
        refine .inl ⟨fun b rest h => absurd h (by simp), ?_⟩
        rw [hnext]
        unfold token
        rw [hp]
        rfl
    | cons b rest =>
        by_cases hr : Token.read false b rest = .unfinished
        · refine .inl ⟨?_, ?_⟩
          · intro b' rest' h
            obtain ⟨rfl, rfl⟩ := List.cons.inj h
            exact hr
          · rw [hnext]
            unfold token
            rw [hp]
            simp only []
            rw [hr]
            rfl
        · exact .inr ⟨b, rest, rfl, hr, hnext⟩

theorem Scanner.settled_token_receive {s : Scanner} {b : UInt8}
    {rest : List UInt8} (hp : s.settled.pending = b :: rest)
    (hr : Token.read false b rest ≠ .unfinished) (ending : Bool)
    (part : List UInt8) :
    ((s.settled.receive part).skip ending).token ending
      = ((s.settled.token false).1, (s.settled.token false).2.receive part) := by
  obtain ⟨hs, hl, hc⟩ := skipBlanks_head hp
  have hreturn : b ≠ 0x0D := by
    intro hb
    obtain ⟨-, rfl⟩ := hc hb
    rw [hb] at hr
    exact hr rfl
  have hpr : (s.settled.receive part).pending = b :: (rest ++ part) := by
    simp [receive, hp]
  rw [skip_of_head hpr hs hl hreturn, token_receive hp hr]

/-- What a token comes to: something, and never the end of the text. -/
theorem Scanner.token_of_read {s : Scanner} {b : UInt8} {rest : List UInt8}
    (hd : s.due = none) (hp : s.pending = b :: rest)
    (hr : Token.read false b rest ≠ .unfinished) :
    (s.token false).1 ≠ .idle ∧ (s.token false).2.unended := by
  have hin := Token.read_within false b rest
  unfold token
  rw [hp]
  simp only []
  cases hread : Token.read false b rest with
  | unfinished => exact absurd hread hr
  | fault fault first last more =>
      refine ⟨Step.noConfusion, ?_⟩
      simp [unended, refuse, take, hd]
  | token t more =>
      rw [hread] at hin
      have htold := Grammar.accept_told (g := s.grammar) hin.1
      simp only [react]
      have hg : (s.take more rest).grammar = s.grammar := rfl
      rw [hg]
      cases ha : s.grammar.accept t with
      | mk grammar reaction =>
          rw [ha] at htold
          cases reaction with
          | silent => exact ⟨Step.noConfusion, by simp [unended, take, hd]⟩
          | fault fault due => exact ⟨Step.noConfusion, htold⟩
          | signal signal =>
              cases signal with
              | ended => exact absurd rfl htold
              | event e =>
                  cases e <;>
                    exact ⟨Step.noConfusion, by simp [unended, tell, take, hd]⟩

/-- A step that comes to something comes to the same with more at hand. -/
theorem Scanner.next_receive {s : Scanner}
    (h : (s.next false).1 ≠ .idle) (ending : Bool) (part : List UInt8) :
    (s.receive part).next ending
      = ((s.next false).1, (s.next false).2.receive part) := by
  cases hd : s.due with
  | some signal =>
      have hdr : (s.receive part).due = some signal := hd
      unfold next
      rw [hd, hdr]
      exact tell_receive { s with due := none } part signal
  | none =>
      rcases next_cases hd with ⟨-, hn⟩ | ⟨hb, ⟨-, hn⟩ | ⟨b, rest, hp, hr, hn⟩⟩
      · rw [hn] at h
        exact absurd rfl h
      · rw [hn] at h
        exact absurd rfl h
      · rw [next_receive_eq hd hb, settled_token_receive hp hr, hn]

/-- After a step that comes to nothing, more bytes lead on from where it ended
as they would have led on from where it began. -/
theorem Scanner.next_receive_of_idle {s : Scanner} (hs : s.unended)
    (h : (s.next false).1 = .idle) (ending : Bool) (part : List UInt8) :
    (s.receive part).next ending
      = ((s.next false).2.receive part).next ending := by
  cases hd : s.due with
  | some signal =>
      unfold next at h
      rw [hd] at h
      cases signal with
      | ended => exact absurd hd hs
      | event e => cases e <;> exact absurd h Step.noConfusion
  | none =>
      rcases next_cases hd with ⟨-, hn⟩ | ⟨hb, ⟨-, hn⟩ | ⟨b, rest, hp, hr, hn⟩⟩
      · rw [hn]
      · rw [hn, next_receive_eq hd hb, next_settled_receive hd]
      · rw [hn] at h
        have hsd : s.settled.due = none := s.settled_due.trans hd
        exact absurd h (token_of_read hsd hp hr).1

theorem Scanner.next_unended {s : Scanner} (hs : s.unended) :
    (s.next false).2.unended := by
  cases hd : s.due with
  | some signal =>
      unfold next
      rw [hd]
      simp [unended, tell_due]
  | none =>
      have hsd : s.settled.due = none := s.settled_due.trans hd
      rcases next_cases hd with ⟨-, hn⟩ | ⟨hb, ⟨-, hn⟩ | ⟨b, rest, hp, hr, hn⟩⟩
      · rw [hn]
        exact hs
      · rw [hn]
        simp [unended, hsd]
      · rw [hn]
        exact (token_of_read hsd hp hr).2

/-! ## Runs of steps -/

section

variable {σ ε : Type} {listen : σ → Event → Nat → Except ε Unit × σ}
  {refusal : ScanFault → ε}

theorem Scanner.drain_of_idle {ending : Bool} {s s' : Scanner} {x : σ}
    (h : s.next ending = (.idle, s')) :
    drain listen refusal ending s x = (.ok (), x, s') := by
  rw [drain]
  split <;> simp_all

theorem Scanner.drain_of_fault {ending : Bool} {s s' : Scanner} {x : σ}
    {fault : ScanFault} (h : s.next ending = (.fault fault, s')) :
    drain listen refusal ending s x = (.error (refusal fault), x, s') := by
  rw [drain]
  split <;> simp_all

theorem Scanner.drain_of_silent {ending : Bool} {s s' : Scanner} {x : σ}
    (h : s.next ending = (.silent, s')) :
    drain listen refusal ending s x = drain listen refusal ending s' x := by
  rw [drain]
  split <;> simp_all

theorem Scanner.drain_of_event {ending : Bool} {s s' : Scanner} {x : σ}
    {e : Event} {depth : Nat} (h : s.next ending = (.event e depth, s')) :
    drain listen refusal ending s x =
      match listen x e depth with
      | (.ok (), x') => drain listen refusal ending s' x'
      | (.error error, x') => (.error error, x', s') := by
  rw [drain]
  split
  case h_4 heq =>
      rw [h] at heq
      obtain ⟨⟨rfl, rfl⟩, rfl⟩ := by simpa using heq
      rfl
  all_goals simp_all

theorem Scanner.drain_congr {ending : Bool} {s t : Scanner}
    (h : s.next ending = t.next ending) (x : σ) :
    drain listen refusal ending s x = drain listen refusal ending t x := by
  cases ht : t.next ending with
  | mk step s' =>
      have hs := h.trans ht
      cases step with
      | idle => rw [drain_of_idle hs, drain_of_idle ht]
      | fault fault => rw [drain_of_fault hs, drain_of_fault ht]
      | silent => rw [drain_of_silent hs, drain_of_silent ht]
      | event e depth => rw [drain_of_event hs, drain_of_event ht]

theorem Scanner.next_receive_eq_of {s s' : Scanner} {step : Step}
    (h : s.next false = (step, s')) (hi : step ≠ .idle) (ending : Bool)
    (part : List UInt8) :
    (s.receive part).next ending = (step, s'.receive part) := by
  have hstep : (s.next false).1 ≠ .idle := by
    rw [h]
    exact hi
  rw [next_receive hstep, h]

theorem Scanner.unended_of_next {s s' : Scanner} {step : Step}
    (hs : s.unended) (h : s.next false = (step, s')) : s'.unended := by
  have hn := next_unended hs
  rw [h] at hn
  exact hn

/-- A run that was not stopped goes on with more at hand as if that had been
there from its start. -/
theorem Scanner.drain_receive {s s' : Scanner} (hs : s.unended) {x x' : σ}
    (h : drain listen refusal false s x = (.ok (), x', s')) (ending : Bool)
    (part : List UInt8) :
    drain listen refusal ending (s.receive part) x
      = drain listen refusal ending (s'.receive part) x' := by
  fun_induction drain listen refusal false s x with
  | case1 s x t hstep =>
      obtain ⟨rfl, rfl⟩ := by simpa using h
      have hidle : (s.next false).1 = .idle := by rw [hstep]
      have hn := next_receive_of_idle hs hidle ending part
      rw [hstep] at hn
      exact drain_congr hn x
  | case2 => exact absurd h (by simp)
  | case3 s x t hstep ih =>
      rw [drain_of_silent
        (next_receive_eq_of hstep Step.noConfusion ending part)]
      exact ih (unended_of_next hs hstep) h
  | case4 s x e depth t hstep x₁ hlisten ih =>
      rw [drain_of_event
        (next_receive_eq_of hstep Step.noConfusion ending part), hlisten]
      exact ih (unended_of_next hs hstep) h
  | case5 => exact absurd h (by simp)

/-- A run that was stopped is stopped just so with more at hand, which is left
pending. -/
theorem Scanner.drain_receive_of_error {s s' : Scanner} {x x' : σ} {error : ε}
    (h : drain listen refusal false s x = (.error error, x', s'))
    (ending : Bool) (part : List UInt8) :
    drain listen refusal ending (s.receive part) x
      = (.error error, x', s'.receive part) := by
  fun_induction drain listen refusal false s x with
  | case1 => exact absurd h (by simp)
  | case2 s x fault t hstep =>
      obtain ⟨rfl, rfl, rfl⟩ := by simpa using h
      exact drain_of_fault
        (next_receive_eq_of hstep Step.noConfusion ending part)
  | case3 s x t hstep ih =>
      rw [drain_of_silent
        (next_receive_eq_of hstep Step.noConfusion ending part)]
      exact ih h
  | case4 s x e depth t hstep x₁ hlisten ih =>
      rw [drain_of_event
        (next_receive_eq_of hstep Step.noConfusion ending part), hlisten]
      exact ih h
  | case5 s x e depth t hstep error₁ x₁ hlisten =>
      obtain ⟨rfl, rfl, rfl⟩ := by simpa using h
      rw [drain_of_event
        (next_receive_eq_of hstep Step.noConfusion ending part), hlisten]

/-! ## Whole texts -/

/-- Takes the parts of a text one after another, up to the first failure. -/
def Scanner.feedAll (listen : σ → Event → Nat → Except ε Unit × σ)
    (refusal : ScanFault → ε) (s : Scanner) (x : σ) :
    List (List UInt8) → Except ε Unit × σ × Scanner
  | [] => (.ok (), x, s)
  | part :: parts =>
      match s.feed listen refusal part x with
      | (.ok (), x, s) => s.feedAll listen refusal x parts
      | (.error error, x, s) => (.error error, x, s)

/-- Takes the parts of a text and then its end. -/
def Scanner.scan (listen : σ → Event → Nat → Except ε Unit × σ)
    (refusal : ScanFault → ε) (s : Scanner) (x : σ)
    (parts : List (List UInt8)) : Except ε Unit × σ :=
  match s.feedAll listen refusal x parts with
  | (.ok (), x, s) =>
      let (result, x, _) := s.finish listen refusal x
      (result, x)
  | (.error error, x, _) => (.error error, x)

theorem Scanner.scan_cons (s : Scanner) (x : σ) (part : List UInt8)
    (parts : List (List UInt8)) :
    s.scan listen refusal x (part :: parts) =
      match s.feed listen refusal part x with
      | (.ok (), x, s) => s.scan listen refusal x parts
      | (.error error, x, _) => (.error error, x) := by
  unfold scan
  rw [feedAll]
  cases s.feed listen refusal part x with
  | mk result rest =>
      cases result with
      | ok => rfl
      | error error => rfl

/-- Takes the parts of a text one after another. What a failure leaves behind is
the listener; the scanner is kept only where all parts were taken. -/
def Scanner.fed (listen : σ → Event → Nat → Except ε Unit × σ)
    (refusal : ScanFault → ε) (s : Scanner) (x : σ)
    (parts : List (List UInt8)) : Except (ε × σ) (σ × Scanner) :=
  match s.feedAll listen refusal x parts with
  | (.ok (), x, s) => .ok (x, s)
  | (.error error, x, _) => .error (error, x)

theorem Scanner.fed_cons (s : Scanner) (x : σ) (part : List UInt8)
    (parts : List (List UInt8)) :
    s.fed listen refusal x (part :: parts) =
      match s.feed listen refusal part x with
      | (.ok (), x, s) => s.fed listen refusal x parts
      | (.error error, x, _) => .error (error, x) := by
  rw [fed, feedAll]
  rcases s.feed listen refusal part x with ⟨error | ⟨⟩, x', s'⟩
  · rfl
  · rfl

/-- Two parts that come one after the other might as well come together. -/
theorem Scanner.fed_join {s : Scanner} (hs : s.unended) (x : σ)
    (a b : List UInt8) (parts : List (List UInt8)) :
    s.fed listen refusal x (a :: b :: parts)
      = s.fed listen refusal x ((a ++ b) :: parts) := by
  rw [fed_cons, fed_cons]
  simp only [feed_eq]
  rw [← receive_receive]
  rcases hfirst : drain listen refusal false (s.receive a) x with
    ⟨result, x', s'⟩
  cases result with
  | ok =>
      rw [drain_receive (unended_receive hs a) hfirst false b]
      simp only []
      rw [fed_cons, feed_eq]
  | error error => rw [drain_receive_of_error hfirst false b]

theorem Scanner.fed_flatten {s : Scanner} (hs : s.unended) (x : σ)
    (part : List UInt8) (parts : List (List UInt8)) :
    s.fed listen refusal x (part :: parts)
      = s.fed listen refusal x [part ++ parts.flatten] := by
  induction parts generalizing part with
  | nil => rw [List.flatten_nil, List.append_nil]
  | cons next parts ih =>
      rw [fed_join hs, ih, List.flatten_cons, List.append_assoc]

theorem Scanner.fed_start_nil (x : σ) :
    Scanner.start.fed listen refusal x []
      = Scanner.start.fed listen refusal x [[]] := by
  rw [fed_cons, feed_eq, receive_nil, drain_of_idle rfl]

/-- What comes of the bytes of a text depends on the bytes, and on nothing else
of the parts that they arrive in. -/
theorem Scanner.fed_start_eq (x : σ) (parts : List (List UInt8)) :
    Scanner.start.fed listen refusal x parts
      = Scanner.start.fed listen refusal x [parts.flatten] := by
  cases parts with
  | nil => exact fed_start_nil x
  | cons part parts =>
      rw [fed_flatten (by simp [unended, start]), List.flatten_cons]

/-- The end of a text is taken where all its parts were. -/
theorem Scanner.scan_eq_fed (s : Scanner) (x : σ)
    (parts : List (List UInt8)) :
    s.scan listen refusal x parts =
      match s.fed listen refusal x parts with
      | .ok (x, s) =>
          ((s.finish listen refusal x).1, (s.finish listen refusal x).2.1)
      | .error (error, x) => (.error error, x) := by
  rw [scan, fed]
  rcases s.feedAll listen refusal x parts with ⟨error | ⟨⟩, x', s'⟩
  · rfl
  · rfl

theorem Scanner.scan_start_eq (x : σ) (parts : List (List UInt8)) :
    Scanner.start.scan listen refusal x parts
      = Scanner.start.scan listen refusal x [parts.flatten] := by
  rw [scan_eq_fed, scan_eq_fed, fed_start_eq]

end

/-- A listener that writes down all it is told, and never refuses. -/
def Scanner.record (told : List (Event × Nat)) (e : Event) (depth : Nat) :
    Except ScanFault Unit × List (Event × Nat) :=
  (.ok (), told ++ [(e, depth)])

/-- All that is told of a text that arrives in certain parts: how its reading
ends, and every event before that with its depth. -/
def Scanner.transcript (parts : List (List UInt8)) :
    Except ScanFault Unit × List (Event × Nat) :=
  Scanner.start.scan record id [] parts

/-- Two ways of cutting the same bytes lead to the same events and to the same
end, its offset included, whatever bytes they are. -/
theorem Scanner.transcript_eq_of_flatten_eq {parts parts' : List (List UInt8)}
    (h : parts.flatten = parts'.flatten) :
    transcript parts = transcript parts' := by
  unfold transcript
  rw [scan_start_eq, scan_start_eq [] parts', h]

/-- Cuts through the byte order mark, a line end of two bytes, a character of
two bytes and a literal, in a text that breaks off. -/
theorem Scanner.transcript_eq_of_cuts :
    [[0xEF], [0xBB, 0xBF, 0x5B, 0x0D], [], [0x0A, 0x22, 0xC3],
        [0xA9, 0x22, 0x2C, 0x74, 0x72]].flatten
      = [[0xEF, 0xBB, 0xBF, 0x5B], [0x0D, 0x0A, 0x22, 0xC3, 0xA9],
        [0x22, 0x2C, 0x74], [0x72], []].flatten ∧
    transcript [[0xEF], [0xBB, 0xBF, 0x5B, 0x0D], [], [0x0A, 0x22, 0xC3],
        [0xA9, 0x22, 0x2C, 0x74, 0x72]]
      = transcript [[0xEF, 0xBB, 0xBF, 0x5B], [0x0D, 0x0A, 0x22, 0xC3, 0xA9],
        [0x22, 0x2C, 0x74], [0x72], []] :=
  ⟨rfl, transcript_eq_of_flatten_eq rfl⟩

end Ridership.Json

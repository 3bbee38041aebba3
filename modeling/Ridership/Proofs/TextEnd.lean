import Ridership.Proofs.TextTree
import Ridership.Proofs.TokenReach

/-!
# The end of a text settles a number and nothing else

When a text ends, a scanner is let go on in another mode. What it has left by
then is little: either its text never got to the three bytes with which it may
begin, or it has taken all that could be taken, and what is pending is blank or
a token that is not finished (`Scanner.Spent`).

A token that waits for more bytes can be finished by the end in one way. A
string needs its quote and a word its letters, whatever comes; only digits are
a number as soon as no digit comes behind them, and then the number takes all
that is pending (`Token.read_unfinished`). So behind it there is nothing, and
the end of a text adds at most that one event to what was told before.
-/

namespace Ridership.Json

/-! ## Tokens that the end settles -/

/-- A number that ends with the text takes every byte there is. -/
theorem NumberSpan.of_unfinished {length : Nat} {bytes : List UInt8}
    (h : NumberSpan.of false bytes = .unfinished)
    (hend : NumberSpan.of true bytes = .complete length) :
    length = bytes.length := by
  have hmore : NumberSpan.of true (bytes ++ []) = .complete length := by
    rwa [List.append_nil]
  have hreach := of_reach h hmore
  have hwithin := NumberSpan.of_within true bytes
  rw [hend] at hwithin
  exact Nat.le_antisymm hwithin hreach

theorem Token.readNumber_unfinished {b : UInt8} {rest : List UInt8} {t : Token}
    {more : Nat} (h : readNumber false (b :: rest) = .unfinished)
    (hend : readNumber true (b :: rest) = .token t more) :
    (∃ literal, t = .number literal) ∧ more = rest.length := by
  unfold readNumber at h hend
  have hspan : NumberSpan.of false (b :: rest) = .unfinished := by
    split at h
    · assumption
    · cases h
    · cases h
  split at hend
  · cases hend
  · next length hcomplete =>
      have hlength := NumberSpan.of_unfinished hspan hcomplete
      cases hend
      rw [hlength]
      exact ⟨⟨_, rfl⟩, rfl⟩
  · cases hend

/-- Letters that are a word when the text ends were one before. -/
theorem Token.readWord_unfinished {word : String} {t t' : Token}
    {bytes : List UInt8} {more : Nat}
    (h : readWord false word t bytes = .unfinished) :
    readWord true word t bytes ≠ .token t' more := by
  intro hend
  unfold readWord at h hend
  dsimp only at h hend
  split at hend
  · cases hend
  · next hlen =>
      rw [if_neg hlen] at h
      split at hend
      · next hw =>
          rw [if_pos hw] at h
          cases h
      · simp at hend

/-- What waits for more bytes is at the end of the text a number that takes all
of them, or no token at all. -/
theorem Token.read_unfinished {b : UInt8} {rest : List UInt8} {t : Token}
    {more : Nat} (h : Token.read false b rest = .unfinished)
    (hend : Token.read true b rest = .token t more) :
    (∃ literal, t = .number literal) ∧ more = rest.length := by
  revert hend
  unfold Token.read at h ⊢
  -- The first byte decides for both readings, so they are split together.
  split at h
  case h_1 | h_2 | h_3 | h_4 | h_5 | h_6 => cases h
  case h_7 =>
      intro hend
      rw [h] at hend
      cases hend
  case h_8 | h_9 | h_10 =>
      intro hend
      exact absurd hend (readWord_unfinished h)
  case h_11 =>
      intro hend
      cases hend
  case h_12 =>
      intro hend
      split at h
      · next hnum =>
          rw [if_pos hnum] at hend
          exact readNumber_unfinished h hend
      · cases h

/-! ## What is left when nothing more is to be had -/

/-- A scanner inside its text that has taken all it could: what is pending
behind the blanks is a token that waits for more bytes. -/
structure Scanner.Spent (s : Scanner) : Prop where
  due_eq : s.due = none
  fresh_eq : s.fresh = false
  unfinished : ∀ b rest, behindBlanks s.pending = b :: rest →
    Token.read false b rest = .unfinished

/-- Settled bytes are blanks no more, but for a return that waits. -/
theorem Scanner.behindBlanks_settled {s : Scanner} {b : UInt8}
    {rest : List UInt8} (h : behindBlanks s.settled.pending = b :: rest) :
    s.settled.pending = b :: rest := by
  cases hp : s.settled.pending with
  | nil =>
      rw [hp] at h
      cases h
  | cons c tail =>
      obtain ⟨hs, hl, hc⟩ := skipBlanks_head hp
      rw [hp] at h
      by_cases hreturn : c = 0x0D
      · obtain ⟨-, rfl⟩ := hc hreturn
        rw [hreturn] at h
        cases h
      · simp only [not_or] at hs
        rw [behindBlanks, List.dropWhile_cons, if_neg] at h
        · exact h
        · simp [hs, hl, hreturn]

theorem Scanner.settled_spent {s : Scanner} (hd : s.due = none)
    (hr : ∀ b rest, s.settled.pending = b :: rest →
      Token.read false b rest = .unfinished) : s.settled.Spent :=
  ⟨s.settled_due.trans hd, s.settled_fresh,
    fun b rest h => hr b rest (behindBlanks_settled h)⟩

/-- A scanner that may look at the beginning of its text, if it has not. -/
def Scanner.Begun (s : Scanner) : Prop :=
  s.fresh = true → s.due = none ∧ 3 ≤ s.pending.length

theorem Scanner.next_fresh {s : Scanner} (hs : s.Begun) :
    (s.next false).2.fresh = false := by
  cases hd : s.due with
  | some signal =>
      have hfresh : s.fresh = false := by
        cases hf : s.fresh with
        | false => rfl
        | true => exact absurd ((hs hf).1.symm.trans hd) (by simp)
      unfold next
      rw [hd]
      exact (tell_flags { s with due := none } signal).2.trans hfresh
  | none =>
      rcases next_cases hd with
        ⟨⟨hf, hlen⟩, -⟩ | ⟨-, ⟨-, hn⟩ | ⟨b, rest, -, -, hn⟩⟩
      · exact absurd (hs hf).2 (by omega)
      · rw [hn]
        exact s.settled_fresh
      · rw [hn, (token_flags _ _).2]
        exact s.settled_fresh

section

variable {σ ε : Type} {listen : σ → Event → Nat → Except ε Unit × σ}
  {refusal : ScanFault → ε}

/-- A run that was not stopped leaves a scanner spent. -/
theorem Scanner.drain_spent {s s' : Scanner} (hs : s.unended) (hb : s.Begun)
    {x x' : σ}
    (h : drain listen refusal false s x = (.ok (), x', s')) : s'.Spent := by
  have hstep_begun {s t : Scanner} {step : Step} (hb : s.Begun)
      (hstep : s.next false = (step, t)) : t.Begun := by
    have hfresh := next_fresh hb
    rw [hstep] at hfresh
    intro hf
    exact absurd (hf.symm.trans hfresh) (by simp)
  fun_induction drain listen refusal false s x with
  | case1 s x t hstep =>
      obtain ⟨rfl, rfl⟩ := by simpa using h
      cases hd : s.due with
      | some signal =>
          unfold next at hstep
          rw [hd] at hstep
          cases signal with
          | ended => exact absurd hd hs
          | event e => cases e <;> cases hstep
      | none =>
          have hsd : s.settled.due = none := s.settled_due.trans hd
          rcases next_cases hd with
            ⟨⟨hf, hlen⟩, -⟩ | ⟨-, ⟨hr, hn⟩ | ⟨b, rest, hp, hr, hn⟩⟩
          · exact absurd (hb hf).2 (by omega)
          · obtain ⟨-, rfl⟩ := by simpa using hn.symm.trans hstep
            exact settled_spent hd hr
          · have hidle := (token_of_read hsd hp hr).1
            rw [← hn, hstep] at hidle
            exact absurd rfl hidle
  | case2 => exact absurd h (by simp)
  | case3 s x t hstep ih =>
      exact ih (unended_of_next hs hstep) (hstep_begun hb hstep) h
  | case4 s x e depth t hstep x₁ hlisten ih =>
      exact ih (unended_of_next hs hstep) (hstep_begun hb hstep) h
  | case5 => exact absurd h (by simp)

/-- A text that is too short to begin is waited for. -/
theorem Scanner.next_of_short {body : List UInt8} (h : body.length < 3) :
    (Scanner.start.receive body).next false
      = (.idle, Scanner.start.receive body) := by
  have hpending : ((Scanner.start.receive body).pending.take 3).length < 3 := by
    show (body.take 3).length < 3
    rw [List.length_take]
    omega
  unfold next
  show (if _ then _ else _) = _
  rw [if_pos]
  simpa [receive, start] using hpending

/-- The bytes of a text are taken without a failure in one of two ways: they
are too few to begin with, and nothing happens, or the scanner is spent. -/
theorem Scanner.feed_start_cases {body : List UInt8} {x x' : σ} {s : Scanner}
    (h : Scanner.start.feed listen refusal body x = (.ok (), x', s)) :
    (body.length < 3 ∧ x' = x ∧ s = Scanner.start.receive body) ∨
      s.Spent := by
  rw [feed_eq] at h
  by_cases hlen : body.length < 3
  · have hidle := next_of_short hlen
    rw [drain_of_idle hidle] at h
    obtain ⟨rfl, rfl⟩ := by simpa using h
    exact .inl ⟨hlen, rfl, rfl⟩
  · refine .inr (drain_spent (by simp [unended, receive, start]) ?_ h)
    intro _
    refine ⟨rfl, ?_⟩
    show 3 ≤ body.length
    omega

end

/-! ## What the end adds -/

/-- Every event that is told uses up a pending byte, or a signal
that was due. -/
theorem Scanner.length_drain (ending : Bool) (s : Scanner)
    (before : List (Event × Nat)) :
    (drain record id ending s before).2.1.length
      ≤ before.length + s.load := by
  have hload {s t : Scanner} {step : Step} (hstep : s.next ending = (step, t))
      (hgoes : step.goesOn) : t.load < s.load := by
    have hnext := next_load s ending
    rw [hstep] at hnext
    exact hnext hgoes
  fun_induction drain record id ending s before with
  | case1 s before t hstep => exact Nat.le_add_right ..
  | case2 s before fault t hstep => exact Nat.le_add_right ..
  | case3 s before t hstep ih =>
      have hless := hload hstep rfl
      omega
  | case4 s before e depth t hstep before' hlisten ih =>
      have hless := hload hstep rfl
      obtain rfl : before ++ [(e, depth)] = before' := congrArg Prod.snd hlisten
      rw [List.length_append, List.length_singleton] at ih
      omega
  | case5 s before e depth t hstep error before' hlisten =>
      exact absurd (congrArg Prod.fst hlisten) (by simp [record])

theorem Grammar.accept_number {g g' : Grammar} {literal : String} {e : Event}
    (h : g.accept (.number literal) = (g', .signal (.event e))) :
    e = .number literal := by
  unfold accept at h
  split at h
  case h_1 =>
      split at h
      · cases h
      · cases h
        rfl
  all_goals
    cases h
    try rfl

/-- A text that ends where nothing is pending tells nothing more. -/
theorem Scanner.StandsAt.drain_nil {s : Scanner} {g : Grammar} {depth : Nat}
    (h : s.StandsAt g depth []) (before : List (Event × Nat)) :
    (drain record id true s before).2.1 = before := by
  have hnext := h.next_ending
  rcases hstep : s.next true with ⟨step, t⟩
  rw [hstep] at hnext
  cases hnext with
  | ended => rw [drain_of_idle hstep]
  | fault => rw [drain_of_fault hstep]
  | event hb => cases hb
  | silent hb => cases hb

/-- The end tells a spent scanner's listener nothing, or one number. -/
theorem Scanner.Spent.drain_ending {s : Scanner} (h : s.Spent)
    (before : List (Event × Nat)) :
    (drain record id true s before).2.1 = before ∨
      ∃ literal depth, (drain record id true s before).2.1
        = before ++ [(.number literal, depth)] := by
  have hs : s.StandsAt s.grammar s.depth s.pending :=
    ⟨rfl, rfl, rfl, h.due_eq, h.fresh_eq⟩
  have hnext := hs.next_ending
  rcases hstep : s.next true with ⟨step, t⟩
  rw [hstep] at hnext
  cases hnext with
  | ended =>
      rw [drain_of_idle hstep]
      exact .inl rfl
  | fault =>
      rw [drain_of_fault hstep]
      exact .inl rfl
  | silent hb ht ha hs' =>
      -- The token has taken all that was pending, whatever it was.
      obtain ⟨-, rfl⟩ := Token.read_unfinished (h.unfinished _ _ hb) ht
      rw [List.drop_length] at hs'
      rw [drain_of_silent hstep]
      exact .inl (hs'.drain_nil before)
  | event hb ht ha hs' =>
      obtain ⟨⟨literal, rfl⟩, rfl⟩ :=
        Token.read_unfinished (h.unfinished _ _ hb) ht
      obtain rfl := Grammar.accept_number ha
      rw [List.drop_length] at hs'
      rw [drain_of_event hstep]
      exact .inr ⟨literal, _, hs'.drain_nil _⟩

end Ridership.Json

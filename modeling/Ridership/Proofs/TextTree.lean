import Ridership.Proofs.GrammarTree
import Ridership.Proofs.ScannerParts

/-!
# A text that is accepted has a tree

A scanner that is given a whole text, and has nothing to object, has told the
events of the text's tree. The bridge is the run of a scanner whose text is
ending: from such a run the tokens of the text are read off, one for each step
that is not the last, together with what the grammar told of them. The text
as it is read in one piece has just these tokens, so its tree is there, and
its events are those that were told.

The scanner is followed by four of its fields (`standsAt`); its position, which
only says where a fault would lie, does not matter to a text without one.
-/

namespace Ridership.Json

/-- Where something stands behind the blanks, or the text is ending, no return
waits, and all blanks are skipped. -/
theorem skipBlanks_eq {ending returned : Bool} {p : Position}
    {bytes : List UInt8} (h : ending = true ∨ behindBlanks bytes ≠ []) :
    (skipBlanks ending returned p bytes).2 = behindBlanks bytes := by
  fun_induction skipBlanks ending returned p bytes with
  | case1 => rfl
  | case2 returned p b rest hb ih =>
      have hskip : behindBlanks (b :: rest) = behindBlanks rest := by
        rw [behindBlanks, List.dropWhile_cons, if_pos, behindBlanks]
        simpa [or_assoc] using Or.inl hb
      rw [hskip] at h ⊢
      exact ih h
  | case3 returned p rest hb ih => exact ih h
  | case4 returned p rest hwaits =>
      obtain ⟨rfl, rfl⟩ : ending = false ∧ rest = [] := by simpa using hwaits
      exact absurd h (by simp [behindBlanks])
  | case5 returned p rest hwaits hb hl ih => exact ih h
  | case6 returned p b rest hs hl hc =>
      rw [behindBlanks, List.dropWhile_cons, if_neg]
      simp only [not_or] at hs
      simp [hs, hl, hc]

theorem skipBlanks_ending (returned : Bool) (p : Position)
    (bytes : List UInt8) :
    (skipBlanks true returned p bytes).2 = behindBlanks bytes :=
  skipBlanks_eq (.inl rfl)

theorem Token.readAll_nil {bytes : List UInt8} (h : behindBlanks bytes = []) :
    Token.readAll bytes = some [] := by
  rw [readAll]
  split
  · rfl
  · next heq => rw [h] at heq; cases heq

theorem Token.readAll_cons {bytes rest : List UInt8} {b : UInt8} {t : Token}
    {more : Nat} {tokens : List Token} (h : behindBlanks bytes = b :: rest)
    (ht : Token.read true b rest = .token t more)
    (hrest : Token.readAll (rest.drop more) = some tokens) :
    Token.readAll bytes = some (t :: tokens) := by
  rw [readAll]
  split
  · next heq => rw [h] at heq; cases heq
  · next heq =>
      rw [h] at heq
      obtain ⟨rfl, rfl⟩ := List.cons.inj heq
      rw [ht]
      simp only [hrest, Option.map_some]

/-! ## Steps of a text that is ending -/

/-- A scanner at work inside its text, as far as what it tells goes. -/
structure Scanner.StandsAt (s : Scanner) (g : Grammar) (depth : Nat)
    (bytes : List UInt8) : Prop where
  grammar : s.grammar = g
  depth : s.depth = depth
  pending : s.pending = bytes
  due : s.due = none
  fresh : s.fresh = false

theorem Scanner.next_ending {s : Scanner} (hd : s.due = none) :
    s.next true = (s.open.skip true).token true := by
  unfold next
  rw [hd]
  simp only []
  rw [if_neg]
  simp

theorem Scanner.next_open_ending {s : Scanner} (hd : s.due = none) :
    s.open.next true = s.next true := by
  have hdo : s.open.due = none := s.open_due.trans hd
  rw [next_ending hd, next_ending hdo, open_of_not_fresh s.open_fresh]

theorem Scanner.tell_event (s : Scanner) (e : Event) :
    s.tell (.event e) = (.event e (e.depths s.depth).1,
      { s with depth := (e.depths s.depth).2 }) := by
  cases e <;> rfl

theorem Scanner.react_of_event {s : Scanner} {g' : Grammar} {t : Token}
    {e : Event} (h : s.grammar.accept t = (g', .signal (.event e)))
    (p : Position) (length : Nat) :
    s.react p length t = (.event e (e.depths s.depth).1,
      { s with grammar := g', depth := (e.depths s.depth).2 }) := by
  unfold react
  rw [h]
  exact tell_event { s with grammar := g' } e

theorem Scanner.react_of_ended {s : Scanner} {g' : Grammar} {t : Token}
    (h : s.grammar.accept t = (g', .signal .ended)) (p : Position)
    (length : Nat) :
    s.react p length t = (.idle, { s with grammar := g' }) := by
  unfold react
  rw [h]
  rfl

theorem Scanner.react_of_silent {s : Scanner} {g' : Grammar} {t : Token}
    (h : s.grammar.accept t = (g', .silent)) (p : Position) (length : Nat) :
    s.react p length t = (.silent, { s with grammar := g' }) := by
  unfold react
  rw [h]

theorem Scanner.react_of_fault {s : Scanner} {g' : Grammar} {t : Token}
    {fault : Fault} {due : Option Signal}
    (h : s.grammar.accept t = (g', .fault fault due)) (p : Position)
    (length : Nat) : ∃ f, (s.react p length t).1 = .fault f := by
  unfold react
  rw [h]
  exact ⟨_, rfl⟩

/-- What a step of a text that is ending comes to: the end of the text, if
that may be, or a token that is taken, or a fault. -/
inductive Scanner.EndingStep (g : Grammar) (depth : Nat)
    (bytes : List UInt8) : Step × Scanner → Prop where
  | ended {s : Scanner} (hb : behindBlanks bytes = [])
      (ha : (g.accept .endOfText).2 = .signal .ended) :
      EndingStep g depth bytes (.idle, s)
  | event {b : UInt8} {rest : List UInt8} {t : Token} {more : Nat}
      {g' : Grammar} {e : Event} {s : Scanner}
      (hb : behindBlanks bytes = b :: rest)
      (ht : Token.read true b rest = .token t more)
      (ha : g.accept t = (g', .signal (.event e)))
      (hs : s.StandsAt g' (e.depths depth).2 (rest.drop more)) :
      EndingStep g depth bytes (.event e (e.depths depth).1, s)
  | silent {b : UInt8} {rest : List UInt8} {t : Token} {more : Nat}
      {g' : Grammar} {s : Scanner} (hb : behindBlanks bytes = b :: rest)
      (ht : Token.read true b rest = .token t more)
      (ha : g.accept t = (g', .silent))
      (hs : s.StandsAt g' depth (rest.drop more)) :
      EndingStep g depth bytes (.silent, s)
  | fault {fault : ScanFault} {s : Scanner} :
      EndingStep g depth bytes (.fault fault, s)

theorem Scanner.EndingStep.of_fault {g : Grammar} {depth : Nat}
    {bytes : List UInt8} {r : Step × Scanner}
    (h : ∃ fault, r.1 = .fault fault) : EndingStep g depth bytes r := by
  obtain ⟨step, s⟩ := r
  obtain ⟨fault, rfl⟩ := h
  exact .fault

theorem Scanner.StandsAt.next_ending {s : Scanner} {g : Grammar} {depth : Nat}
    {bytes : List UInt8} (h : s.StandsAt g depth bytes) :
    EndingStep g depth bytes (s.next true) := by
  have hnext : s.next true = (s.skip true).token true := by
    rw [Scanner.next_ending h.due, open_of_not_fresh h.fresh]
  have hpending : (s.skip true).pending = behindBlanks bytes := by
    rw [← h.pending]
    exact skipBlanks_ending false s.position s.pending
  have hgrammar : (s.skip true).grammar = g := h.grammar
  have hdepth : (s.skip true).depth = depth := h.depth
  have hdue : (s.skip true).due = none := h.due
  have hfresh : (s.skip true).fresh = false := h.fresh
  rw [hnext]
  generalize s.skip true = u at *
  subst hgrammar hdepth
  unfold token
  rw [hpending]
  cases hb : behindBlanks bytes with
  | nil =>
      rw [if_pos rfl]
      rcases u.grammar.accept_endOfText with ha | ⟨fault, due, ha⟩
      · rw [react_of_ended (Prod.ext rfl ha)]
        exact .ended hb ha
      · exact .of_fault (react_of_fault (Prod.ext rfl ha) _ _)
  | cons b rest =>
      have hin := Token.read_within true b rest
      simp only []
      cases hr : Token.read true b rest with
      | unfinished => exact .fault
      | fault fault first last more => exact .fault
      | token t more =>
          rw [hr] at hin
          have htold := Grammar.accept_told (g := u.grammar) hin.1
          have hg : (u.take more rest).grammar = u.grammar := rfl
          simp only []
          rcases ha : u.grammar.accept t with ⟨g', signal | _ | ⟨fault, due⟩⟩
          · cases signal with
            | ended =>
                rw [ha] at htold
                exact absurd rfl htold
            | event e =>
                rw [react_of_event (hg ▸ ha)]
                exact .event hb hr ha ⟨rfl, rfl, rfl, hdue, hfresh⟩
          · rw [react_of_silent (hg ▸ ha)]
            exact .silent hb hr ha ⟨rfl, rfl, rfl, hdue, hfresh⟩
          · exact .of_fault (react_of_fault (hg ▸ ha) _ _)

/-- A text that comes to its end without a fault has only tokens and blanks,
and its grammar told what was written down. -/
theorem Scanner.StandsAt.tokens_of_drain {s s' : Scanner} {g : Grammar}
    {depth : Nat} {bytes : List UInt8} (hs : s.StandsAt g depth bytes)
    {before told : List (Event × Nat)}
    (h : s.drain record id true before = (.ok (), told, s')) :
    ∃ tokens events, Token.readAll bytes = some tokens ∧
      g.tells depth tokens = some events ∧ told = before ++ events := by
  fun_induction drain record id true s before generalizing g depth bytes with
  | case1 s before t hstep =>
      obtain ⟨rfl, rfl⟩ := by simpa using h
      have hnext := hs.next_ending
      rw [hstep] at hnext
      cases hnext with
      | ended hb ha =>
          refine ⟨[], [], Token.readAll_nil hb, ?_, (List.append_nil _).symm⟩
          rw [Grammar.tells, if_pos ha]
  | case2 => exact absurd h (by simp)
  | case3 s before t hstep ih =>
      have hnext := hs.next_ending
      rw [hstep] at hnext
      cases hnext with
      | silent hb ht ha hs' =>
          obtain ⟨tokens, events, hread, htells, rfl⟩ := ih hs' h
          refine ⟨_, events, Token.readAll_cons hb ht hread, ?_, rfl⟩
          rw [Grammar.tells, ha]
          exact htells
  | case4 s before e depth' t hstep x₁ hlisten ih =>
      have hnext := hs.next_ending
      rw [hstep] at hnext
      cases hnext with
      | event hb ht ha hs' =>
          obtain rfl : before ++ [(e, (e.depths depth).1)] = x₁ :=
            congrArg Prod.snd hlisten
          obtain ⟨tokens, events, hread, htells, rfl⟩ := ih hs' h
          refine ⟨_, _, Token.readAll_cons hb ht hread, ?_,
            List.append_assoc before [_] events⟩
          rw [Grammar.tells, ha]
          simp only [Grammar.thenTells, htells, Option.map_some,
            List.singleton_append]
  | case5 s before e depth' t hstep error x₁ hlisten =>
      exact absurd (congrArg Prod.fst hlisten) (by simp [record])

/-! ## Whole texts -/

section

variable {σ ε : Type} {listen : σ → Event → Nat → Except ε Unit × σ}
  {refusal : ScanFault → ε}

/-- Neither whether a text has begun nor whether its beginning was looked at
changes where something is told. -/
theorem Scanner.tell_flags (s : Scanner) (signal : Signal) :
    (s.tell signal).2.started = s.started ∧
      (s.tell signal).2.fresh = s.fresh := by
  cases signal with
  | ended => exact ⟨rfl, rfl⟩
  | event e => cases e <;> exact ⟨rfl, rfl⟩

theorem Scanner.react_flags (s : Scanner) (p : Position) (length : Nat)
    (t : Token) :
    (s.react p length t).2.started = s.started ∧
      (s.react p length t).2.fresh = s.fresh := by
  unfold react
  rcases s.grammar.accept t with ⟨g, signal | _ | ⟨fault, due⟩⟩
  · exact tell_flags { s with grammar := g } signal
  · exact ⟨rfl, rfl⟩
  · exact ⟨rfl, rfl⟩

theorem Scanner.token_flags (s : Scanner) (ending : Bool) :
    (s.token ending).2.started = s.started ∧
      (s.token ending).2.fresh = s.fresh := by
  unfold token
  split
  · split
    · exact react_flags s _ _ _
    · exact ⟨rfl, rfl⟩
  · split
    · split <;> exact ⟨rfl, rfl⟩
    · exact react_flags (s.take _ _) _ _ _
    · exact ⟨rfl, rfl⟩

theorem Scanner.open_started (s : Scanner) : s.open.started = s.started := by
  unfold Scanner.open
  split
  · simp only []
    split <;> rfl
  · rfl

theorem Scanner.next_started (s : Scanner) (ending : Bool) :
    (s.next ending).2.started = s.started := by
  unfold next
  split
  · exact (tell_flags { s with due := none } _).1
  · split
    · rfl
    · rw [(token_flags _ _).1]
      exact s.open_started

theorem Scanner.drain_started {ending : Bool} {s s' : Scanner} {x x' : σ}
    {result : Except ε Unit}
    (h : drain listen refusal ending s x = (result, x', s')) :
    s'.started = s.started := by
  have hstarted : ∀ {s t : Scanner} {step : Step},
      s.next ending = (step, t) → t.started = s.started := by
    intro s t step hstep
    rw [← next_started s ending, hstep]
  fun_induction drain listen refusal ending s x with
  | case1 s x t hstep | case2 s x fault t hstep =>
      obtain ⟨-, -, rfl⟩ := by simpa using h
      exact hstarted hstep
  | case3 s x t hstep ih => exact (ih h).trans (hstarted hstep)
  | case4 s x e depth t hstep x₁ hlisten ih =>
      exact (ih h).trans (hstarted hstep)
  | case5 s x e depth t hstep error x₁ hlisten =>
      obtain ⟨-, -, rfl⟩ := by simpa using h
      exact hstarted hstep

end

/-- A text that is accepted as a whole, and is not only blanks. -/
def Scanner.Accepts (body : List UInt8) : Prop :=
  (transcript [body]).1 = .ok () ∧ body.any (fun b => !isBlank b) = true

instance (body : List UInt8) : Decidable (Scanner.Accepts body) :=
  match h : (Scanner.transcript [body]).1 with
  | .ok () => decidable_of_iff (body.any (fun b => !isBlank b) = true)
      ⟨fun hblank => ⟨h, hblank⟩, And.right⟩
  | .error _ => .isFalse fun ⟨hok, _⟩ => by
      rw [h] at hok
      exact absurd hok (by simp)

theorem Scanner.start_receive_open (body : List UInt8) :
    (Scanner.start.receive body).open.StandsAt .start 0 (behindMark body) := by
  have hf : (Scanner.start.receive body).fresh = true := rfl
  have hp : (Scanner.start.receive body).pending = body := rfl
  unfold Scanner.open behindMark
  rw [if_pos hf, hp]
  simp only []
  split
  · exact ⟨rfl, rfl, rfl, rfl, rfl⟩
  · exact ⟨rfl, rfl, rfl, rfl, rfl⟩

/-- Where a text is accepted, it would have been told at once, had it been
known from the start that nothing more comes. -/
theorem Scanner.Accepts.drain_ending {body : List UInt8} (h : Accepts body) :
    ∃ s, drain record id true (Scanner.start.receive body) []
      = (.ok (), (transcript [body]).2, s) := by
  obtain ⟨hok, hblank⟩ := h
  unfold transcript at hok ⊢
  rw [scan_cons, feed_eq] at hok ⊢
  rcases hfeed : Scanner.drain record id false (Scanner.start.receive body) []
    with ⟨_ | _, told, s⟩
  · rw [hfeed] at hok
    cases hok
  · rw [hfeed] at hok
    have hunended : (Scanner.start.receive body).unended := by
      simp [unended, receive, start]
    have hstarted : s.started = true := by
      rw [drain_started hfeed]
      simpa [receive, start] using hblank
    have hend := drain_receive hunended hfeed true []
    rw [receive_nil, receive_nil] at hend
    rw [hend]
    simp only [scan, feedAll, finish, hstarted, if_true] at hok ⊢
    refine ⟨(Scanner.drain record id true s told).2.2, ?_⟩
    exact Prod.ext hok rfl

/-- A text that is accepted has a tree, and what is told of it is what the
tree tells. -/
theorem Scanner.Accepts.tree {body : List UInt8} (h : Accepts body) :
    ∃ tree, Tree.ofText? body = some tree ∧
      (transcript [body]).2 = tree.events 0 := by
  obtain ⟨s, hdrain⟩ := h.drain_ending
  have hopen : (Scanner.start.receive body).open.next true
      = (Scanner.start.receive body).next true := next_open_ending rfl
  rw [← drain_congr hopen] at hdrain
  obtain ⟨tokens, events, hread, htells, htold⟩ :=
    (start_receive_open body).tokens_of_drain hdrain
  obtain ⟨tree, hlt, htree, rfl⟩ := Tree.read_of_tells htells
  refine ⟨tree, ?_, htold⟩
  simp [Tree.ofText?, hread, htree]

end Ridership.Json

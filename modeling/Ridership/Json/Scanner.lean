import Ridership.Json.Event

/-!
# Reading a text as it arrives

A scanner is fed the parts of a text and tells the events that they
complete, each with its depth: the number of containers around it, where a
container that opens or closes counts itself. It keeps the bytes it cannot
decide yet and nothing else of the text.

`next` takes one step. `drain` takes steps until there is nothing more to be
had, or something is wrong, or the one who listens has had enough; the
listener's state is threaded through and survives a refusal. A scanner stays
usable after either kind of failure, and goes on behind the bytes it has
taken.
-/

namespace Ridership.Json

/-- The state between two parts of a text. -/
structure Scanner where
  grammar : Grammar
  /-- What is to be told next, before any more bytes are looked at. -/
  due : Option Signal
  /-- The place of the first pending byte; its offset is the number of bytes
  taken so far. -/
  position : Position
  /-- Whether the beginning of the text, with its byte order mark, is still to
  be looked at. -/
  fresh : Bool
  /-- The bytes that have arrived and are not taken yet. -/
  pending : List UInt8
  /-- How many containers are open, by what has been told. -/
  depth : Nat
  /-- Whether anything but blanks has arrived. -/
  started : Bool

/-- A scanner that nothing was fed to. -/
def Scanner.start : Scanner :=
  { grammar := .start, due := none, position := .start, fresh := true,
    pending := [], depth := 0, started := false }

/-- A text refused, after `offset` of its bytes were taken. -/
structure ScanFault where
  offset : Nat
  error : SyntaxError
  deriving DecidableEq, Repr

/-- What a step of a scanner comes to. -/
inductive Step where
  | event (e : Event) (depth : Nat)
  /-- A token was taken that only separates. -/
  | silent
  /-- There is nothing more to be had from what has arrived. -/
  | idle
  | fault (fault : ScanFault)

/-- Tells a signal, and keeps count of the open containers. -/
def Scanner.tell (s : Scanner) : Signal → Step × Scanner
  | .ended => (.idle, s)
  | .event e =>
      match e with
      | .startObject | .startArray =>
          (.event e (s.depth + 1), { s with depth := s.depth + 1 })
      | .endObject | .endArray =>
          (.event e s.depth, { s with depth := s.depth - 1 })
      | _ => (.event e s.depth, s)

/-- The error of blaming the bytes `first` to `last` after `p`. -/
def Scanner.refuse (s : Scanner) (p : Position) (fault : Fault)
    (first last : Nat) : Step × Scanner :=
  (.fault ⟨s.position.offset, p.blame fault first last⟩, s)

/-- Gives a token that lies in the `length` bytes behind `p` to the grammar. -/
def Scanner.react (s : Scanner) (p : Position) (length : Nat) (t : Token) :
    Step × Scanner :=
  let (grammar, reaction) := s.grammar.accept t
  let s := { s with grammar }
  match reaction with
  | .signal signal => s.tell signal
  | .silent => (.silent, s)
  | .fault fault due => { s with due }.refuse p fault 0 length

/-- Takes `more` bytes behind the first of the pending ones. -/
def Scanner.take (s : Scanner) (more : Nat) (rest : List UInt8) : Scanner :=
  { s with
    position := s.position.advance (more + 1), pending := rest.drop more }

/-- The first three bytes of a text that says so that it is UTF-8. -/
def byteOrderMark : List UInt8 := [0xEF, 0xBB, 0xBF]

/-- Looks at the beginning of the text, if that is still to be done, and skips
a byte order mark. -/
def Scanner.open (s : Scanner) : Scanner :=
  if s.fresh then
    let s := { s with fresh := false }
    if s.pending.take 3 = byteOrderMark then
      { s with position := s.position.advance 3, pending := s.pending.drop 3 }
    else s
  else s

/-- Takes the blanks in front. -/
def Scanner.skip (s : Scanner) (ending : Bool) : Scanner :=
  let (position, pending) := skipBlanks ending false s.position s.pending
  { s with position, pending }

/-- Takes one token, with the blanks before it already taken. -/
def Scanner.token (s : Scanner) (ending : Bool) : Step × Scanner :=
  match s.pending with
  | [] => if ending then s.react s.position 0 .endOfText else (.idle, s)
  | b :: rest =>
      match Token.read ending b rest with
      | .unfinished =>
          if ending then
            { s with due := some .ended }.refuse s.position .endInToken 0 1
          else (.idle, s)
      | .token t more => (s.take more rest).react s.position (more + 1) t
      | .fault fault first last more =>
          (s.take more rest).refuse s.position fault first last

/-- Takes one step. A text begins only when three bytes have arrived or it is
ending. -/
def Scanner.next (s : Scanner) (ending : Bool) : Step × Scanner :=
  match s.due with
  | some signal => { s with due := none }.tell signal
  | none =>
      if s.fresh && !ending && decide ((s.pending.take 3).length < 3) then
        (.idle, s)
      else (s.open.skip ending).token ending

/-! ## Every step towards an event uses something up -/

/-- The pending bytes, and one more for a signal that is due. -/
def Scanner.load (s : Scanner) : Nat :=
  s.pending.length + (if s.due.isSome then 1 else 0)

/-- Whether the scanner may go on after a step. -/
def Step.goesOn : Step → Bool
  | .event _ _ => true
  | .silent => true
  | .idle => false
  | .fault _ => false

theorem Scanner.tell_load (s : Scanner) (signal : Signal) :
    (s.tell signal).2.load = s.load := by
  unfold tell load
  split <;> try rfl
  split <;> rfl

theorem Scanner.react_load (s : Scanner) (p : Position) (length : Nat)
    (t : Token) (h : (s.react p length t).1.goesOn) :
    (s.react p length t).2.load = s.load := by
  unfold react at h ⊢
  cases hr : (s.grammar.accept t).2 with
  | signal signal => simp only [hr]; rw [tell_load]; rfl
  | silent => simp only [hr]; rfl
  | fault fault due => simp [hr, refuse, Step.goesOn] at h

theorem Scanner.take_load (s : Scanner) (more : Nat) (b : UInt8)
    (rest : List UInt8) (h : s.pending = b :: rest) :
    (s.take more rest).load < s.load := by
  have hdue : (s.take more rest).due = s.due := rfl
  have hpending : (s.take more rest).pending = rest.drop more := rfl
  simp only [load, hdue, hpending, h, List.length_drop, List.length_cons]
  omega

theorem Scanner.token_load (s : Scanner) (ending : Bool)
    (h : (s.token ending).1.goesOn) : (s.token ending).2.load < s.load := by
  unfold token at h ⊢
  cases hp : s.pending with
  | nil =>
      simp only [hp] at h
      cases ending with
      | false => simp [Step.goesOn] at h
      | true =>
          exfalso
          simp only [if_true, react] at h
          rcases s.grammar.accept_endOfText with ha | ⟨fault, due, ha⟩
          · simp [ha, tell, Step.goesOn] at h
          · simp [ha, refuse, Step.goesOn] at h
  | cons b rest =>
      simp only [hp] at h ⊢
      cases hr : Token.read ending b rest with
      | unfinished =>
          simp only [hr] at h
          cases ending <;> simp [refuse, Step.goesOn] at h
      | token t more =>
          simp only [hr] at h ⊢
          rw [react_load _ _ _ _ h]
          exact s.take_load more b rest hp
      | fault fault first last more => simp [hr, refuse, Step.goesOn] at h

theorem Scanner.skip_open_load (s : Scanner) (ending : Bool) :
    (s.open.skip ending).load ≤ s.load := by
  have hskip := skipBlanks_length ending false s.open.position s.open.pending
  have hopen : s.open.pending.length ≤ s.pending.length
      ∧ s.open.due = s.due := by
    unfold Scanner.open
    split
    · dsimp only
      split <;> simp
    · simp
  have hdue : (s.open.skip ending).due = s.due := hopen.2
  have hpending : (s.open.skip ending).pending =
      (skipBlanks ending false s.open.position s.open.pending).2 := rfl
  simp only [load, hdue, hpending]
  omega

/-- A step after which the scanner may go on has used up a byte or the signal
that was due. -/
theorem Scanner.next_load (s : Scanner) (ending : Bool)
    (h : (s.next ending).1.goesOn) : (s.next ending).2.load < s.load := by
  unfold next at h ⊢
  cases hd : s.due with
  | some signal =>
      simp only [tell_load]
      simp [load, hd]
  | none =>
      simp only [hd] at h ⊢
      split at h
      · simp [Step.goesOn] at h
      · next hw =>
          rw [if_neg hw]
          exact Nat.lt_of_lt_of_le (token_load _ _ h) (skip_open_load s ending)

/-! ## Parts of a text -/

/-- Takes steps and tells the events to a listener, until nothing more is to be
had, the text is refused, or the listener refuses. -/
def Scanner.drain {σ ε : Type} (listen : σ → Event → Nat → Except ε Unit × σ)
    (refusal : ScanFault → ε) (ending : Bool) (s : Scanner) (x : σ) :
    Except ε Unit × σ × Scanner :=
  match _hstep : s.next ending with
  | (.idle, s') => (.ok (), x, s')
  | (.fault fault, s') => (.error (refusal fault), x, s')
  | (.silent, s') => drain listen refusal ending s' x
  | (.event e depth, s') =>
      match listen x e depth with
      | (.ok (), x') => drain listen refusal ending s' x'
      | (.error error, x') => (.error error, x', s')
termination_by s.load
decreasing_by
  all_goals
    have hload := s.next_load ending (by simp [_hstep, Step.goesOn])
    simpa [_hstep] using hload

/-- Whether a byte is blank in ASCII. The form feed is, although no blank of a
JSON text. -/
def isBlank (b : UInt8) : Bool :=
  b = 0x20 || b = 0x09 || b = 0x0A || b = 0x0C || b = 0x0D

/-- Takes the next part of the text. -/
def Scanner.feed {σ ε : Type} (listen : σ → Event → Nat → Except ε Unit × σ)
    (refusal : ScanFault → ε) (s : Scanner) (part : List UInt8) (x : σ) :
    Except ε Unit × σ × Scanner :=
  drain listen refusal false
    { s with
      started := s.started || part.any (fun b => !isBlank b)
      pending := s.pending ++ part } x

/-- Takes the end of the text. A text of blanks only, or of nothing,
is let pass. -/
def Scanner.finish {σ ε : Type} (listen : σ → Event → Nat → Except ε Unit × σ)
    (refusal : ScanFault → ε) (s : Scanner) (x : σ) :
    Except ε Unit × σ × Scanner :=
  if s.started then drain listen refusal true s x else (.ok (), x, s)

end Ridership.Json

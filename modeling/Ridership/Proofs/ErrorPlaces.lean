import Ridership.Proofs.Arrivals
import Ridership.Proofs.BodyReads
import Ridership.Proofs.ClosingBytes

/-!
# Where an error of a line is placed

An error tells a place of the line, and there are two kinds of places. A text
that is refused is refused behind the bytes that the scanner has taken, wherever
the reads end. A sub-tree that does not read is found out when its closing
bracket is told, and blamed on the read that is being taken then: on its first
byte, for the bytes read are counted when a read is over.

Which read that is depends on nothing but the place of the bracket. The
sub-trees that the first bytes of a body complete are a matter of these bytes
alone (`subtreesOf`), and one byte more completes one more at most, and only if
it is a bracket. So there is one byte at which a body goes from sub-trees that
all read to one that does not (`ClosesUnread`). All reads before that byte are
taken, and the read that has it is refused. The end of a line completes nothing
and is never blamed.
-/

namespace Ridership.Json

/-! ## The place of a fault -/

/-- How far the bytes go that have arrived. -/
def Scanner.arrived (s : Scanner) : Nat :=
  s.position.offset + s.pending.length

theorem Scanner.Passes.arrived_eq {s s' : Scanner} (h : s.Passes s') :
    s'.arrived = s.arrived := by
  obtain ⟨taken, hpending, hoffset⟩ := h
  rw [arrived, arrived, hoffset, hpending, List.length_append, Nat.add_assoc]

theorem Scanner.receive_arrived (s : Scanner) (part : List UInt8) :
    (s.receive part).arrived = s.arrived + part.length := by
  show _ + (s.pending ++ part).length = _
  rw [List.length_append, ← Nat.add_assoc]
  rfl

theorem Scanner.tell_ne_fault {s s' : Scanner} {signal : Signal}
    {fault : ScanFault} : s.tell signal ≠ (.fault fault, s') := by
  intro h
  cases signal with
  | ended => cases h
  | event e => cases e <;> cases h

theorem Scanner.react_fault {s s' : Scanner} {p : Position} {length : Nat}
    {t : Token} {fault : ScanFault}
    (h : s.react p length t = (.fault fault, s')) :
    fault.offset = s'.position.offset := by
  unfold react at h
  rcases ha : s.grammar.accept t with ⟨g, signal | _ | ⟨cause, due⟩⟩
  · rw [ha] at h
    exact absurd h tell_ne_fault
  · rw [ha] at h
    cases h
  · rw [ha] at h
    cases h
    rfl

/-- A fault is placed behind the bytes that were taken. -/
theorem Scanner.next_fault {s s' : Scanner} {ending : Bool} {fault : ScanFault}
    (h : s.next ending = (.fault fault, s')) :
    fault.offset = s'.position.offset := by
  unfold next at h
  split at h
  · exact absurd h tell_ne_fault
  · split at h
    · cases h
    · unfold token at h
      split at h
      · split at h
        · exact react_fault h
        · cases h
      · split at h
        · split at h
          · cases h
            rfl
          · cases h
        · exact react_fault h
        · cases h
          rfl

theorem Scanner.drain_arrived {σ ε : Type}
    (listen : σ → Event → Nat → Except ε Unit × σ) (refusal : ScanFault → ε)
    (ending : Bool) (s : Scanner) (x : σ) :
    (drain listen refusal ending s x).2.2.arrived = s.arrived := by
  have hnext {s s' : Scanner} {step : Step}
      (hstep : s.next ending = (step, s')) : s'.arrived = s.arrived := by
    have hpasses := s.next_passes ending
    rw [hstep] at hpasses
    exact hpasses.arrived_eq
  fun_induction drain listen refusal ending s x with
  | case1 s x t hstep | case2 s x fault t hstep => exact hnext hstep
  | case3 s x t hstep ih => exact ih.trans (hnext hstep)
  | case4 s x e depth t hstep y hlisten ih => exact ih.trans (hnext hstep)
  | case5 s x e depth t hstep error y hlisten => exact hnext hstep

/-- A text is refused no farther than its bytes have arrived. -/
theorem Scanner.drain_offset_le {ending : Bool} {s s' : Scanner}
    {before told : List (Event × Nat)} {fault : ScanFault}
    (h : drain record id ending s before = (.error fault, told, s')) :
    fault.offset ≤ s.arrived := by
  have harrived := drain_arrived record id ending s before
  have hoffset : fault.offset = s'.position.offset := by
    clear harrived
    fun_induction drain record id ending s before with
    | case1 => cases h
    | case2 s before cause t hstep =>
        cases h
        exact next_fault hstep
    | case3 s before t hstep ih => exact ih h
    | case4 s before e depth t hstep before' hlisten ih => exact ih h
    | case5 s before e depth t hstep error before' hlisten =>
        exact absurd (congrArg Prod.fst hlisten) (by simp [record])
  rw [h] at harrived
  rw [hoffset, ← harrived]
  exact Nat.le_add_right _ _

theorem Scanner.finish_offset_le {s : Scanner} {before : List (Event × Nat)}
    {fault : ScanFault} (h : (s.finish record id before).1 = .error fault) :
    fault.offset ≤ s.arrived := by
  unfold finish at h
  split at h
  · exact drain_offset_le (Prod.ext h rfl)
  · cases h

end Ridership.Json

namespace Ridership.Storage

/-! ## The read of a byte -/

theorem startOf_append {taken : List (List UInt8)} {piece : List UInt8}
    {place : Nat} (hfrom : taken.flatten.length ≤ place)
    (hto : place < taken.flatten.length + piece.length)
    (more : List (List UInt8)) :
    startOf (taken ++ piece :: more) place = taken.flatten.length := by
  induction taken generalizing place with
  | nil =>
      simp only [List.flatten_nil, List.length_nil, Nat.zero_add] at hto ⊢
      rw [List.nil_append, startOf, if_pos hto]
  | cons first taken ih =>
      rw [List.flatten_cons, List.length_append] at hfrom hto ⊢
      rw [List.cons_append, startOf, if_neg (by omega),
        ih (by omega) (by omega)]

theorem piecesOf_pieces (pieces : List (List UInt8)) (fault : Option Fault) :
    piecesOf (pieces.map .bytes ++ (fault.map Read.fault).toList)
      = pieces := by
  induction pieces with
  | nil => cases fault <;> rfl
  | cons piece pieces ih =>
      rw [List.map_cons, List.cons_append, piecesOf, ih]

end Ridership.Storage

namespace Ridership.Forecast

open Json (Event ScanFault Scanner Selected Selector)
open Log (Line)
open Storage (ByteSource Delivery Fault Read faultOf piecesOf piecesOf_pieces
  startOf startOf_append)

/-! ## The sub-trees that the first bytes complete -/

/-- The sub-trees of a trip that some bytes complete. -/
def subtreesOf (bytes : List UInt8) : List Selected :=
  (Selector.start.run isTripKey (Scanner.told bytes)).2

/-- How the taking of the sub-trees that some bytes complete ends, all their
places counted as none. -/
def assembled (bytes : List UInt8) : Except ForecastError Unit :=
  (Assembler.start.acceptAll 0 (subtreesOf bytes)).2

theorem isTripKey_zero (name : String) : isTripKey name 0 = false := rfl

theorem assembled_nil : assembled [] = .ok () := by
  have hnone : subtreesOf [] = [] :=
    Selector.run_told_of_short isTripKey_zero (Nat.zero_le 3)
  rw [assembled, hnone]
  rfl

/-- A sub-tree that does not read stays one with more bytes behind it. -/
theorem assembled_append {bytes : List UInt8} {error : ForecastError}
    (h : assembled bytes = .error error) (more : List UInt8) :
    assembled (bytes ++ more) = .error error := by
  obtain ⟨back, hback⟩ := Scanner.told_prefix bytes more
  rw [assembled, subtreesOf, ← hback, Selector.run_append]
  exact Assembler.acceptAll_append_error h _

theorem assembled_error {bytes : List UInt8} {error : ForecastError}
    (h : assembled bytes = .error error) :
    ∃ message, BlamesSubtree message ∧ error = .malformedRecord 0 message :=
  Assembler.acceptAll_error h

/-- The byte at `place` is the closing bracket of a sub-tree that does not read,
and all sub-trees before it do. -/
structure ClosesUnread (body : List UInt8) (place : Nat) (message : String) :
    Prop where
  closes : ∃ b found, body[place]? = some b ∧
    Selector.Completes isTripKey (body.take place) b found
  reads : assembled (body.take place) = .ok ()
  unread : assembled (body.take (place + 1))
    = .error (.malformedRecord 0 message)

/-- Where a sub-tree does not read, there is the bracket that closes the first
such one. -/
theorem ClosesUnread.exists_of_error {body : List UInt8} {message : String}
    (h : assembled body = .error (.malformedRecord 0 message)) :
    ∃ place, ClosesUnread body place message := by
  -- The first byte at which the sub-trees so far do not all read.
  have hfirst : ∀ n ≤ body.length,
      assembled (body.take n) = .error (.malformedRecord 0 message) →
      ∃ place < body.length, assembled (body.take place) = .ok () ∧
        assembled (body.take (place + 1))
          = .error (.malformedRecord 0 message) := by
    intro n hn herror
    induction n with
    | zero =>
        rw [List.take_zero, assembled_nil] at herror
        cases herror
    | succ n ih =>
        cases hbefore : assembled (body.take n) with
        | ok => exact ⟨n, hn, hbefore, herror⟩
        | error error =>
            have hlater := assembled_append hbefore [body[n]]
            rw [List.take_append_getElem hn, herror] at hlater
            cases hlater
            exact ih (Nat.le_of_lt hn) hbefore
  obtain ⟨place, hplace, hreads, hunread⟩ :=
    hfirst body.length (Nat.le_refl _) (by rwa [List.take_length])
  have hone := Selector.run_told_concat isTripKey_zero (body.take place)
    body[place]
  rw [List.take_append_getElem hplace] at hone
  rcases hone with hnone | ⟨found, hcompletes⟩
  · -- Without a sub-tree more nothing would have changed.
    have hsame : assembled (body.take (place + 1))
        = assembled (body.take place) := by
      rw [assembled, subtreesOf, hnone]
      rfl
    rw [hsame, hreads] at hunread
    cases hunread
  · exact ⟨place, ⟨_, found, List.getElem?_eq_getElem hplace, hcompletes⟩,
      hreads, hunread⟩

theorem ClosesUnread.lt {body : List UInt8} {place : Nat} {message : String}
    (h : ClosesUnread body place message) : place < body.length := by
  obtain ⟨b, found, hb, -⟩ := h.closes
  exact (List.getElem?_eq_some_iff.mp hb).1

/-- The bracket is among the bytes that come behind sub-trees that read and
complete one that does not. -/
theorem ClosesUnread.between {front piece back : List UInt8} {place : Nat}
    {message : String} {error : ForecastError}
    (h : ClosesUnread (front ++ piece ++ back) place message)
    (hreads : assembled front = .ok ())
    (hunread : assembled (front ++ piece) = .error error) :
    front.length ≤ place ∧ place < front.length + piece.length := by
  refine ⟨Nat.le_of_not_lt fun hlt => ?_, Nat.lt_of_not_le fun hle => ?_⟩
  · have hlater := assembled_append h.unread
      (front.drop (place + 1))
    rw [List.append_assoc, List.take_append_of_le_length hlt,
      List.take_append_drop, hreads] at hlater
    cases hlater
  · have hlater := assembled_append hunread
      (back.take (place - (front ++ piece).length))
    have htake : (front ++ piece ++ back).take place = front ++ piece
        ++ back.take (place - (front ++ piece).length) := by
      rw [List.take_append, List.take_of_length_le]
      rwa [List.length_append]
    rw [← htake, h.reads] at hlater
    cases hlater

/-! ## A body that arrives at once -/

/-- What is taken of bytes ends with the first sub-tree that does not read, or
as their text does. -/
theorem LineState.feed_assembled (body : List UInt8) :
    (∀ error, assembled body = .error error →
      (Scanner.start.feed (see 0) ForecastError.ofScan body start).1
        = .error error) ∧
    (assembled body = .ok () →
      ∃ result, (Scanner.start.feed (see 0) ForecastError.ofScan body start).1
        = Except.mapError ForecastError.ofScan result) := by
  obtain ⟨result, told, s', hrecord, hears⟩ := Scanner.drain_hears (see 0)
    ForecastError.ofScan false (Scanner.start.receive body) []
  have htold : Scanner.told body = told := by
    rw [Scanner.told, Scanner.feed_eq, hrecord]
    rfl
  have hend : (Scanner.hear (see 0) start told).1 = assembled body := by
    rw [(hear_see 0 start told).1, assembled, subtreesOf, htold]
    rfl
  rw [Scanner.feed_eq, ← hend]
  rcases hheard : Scanner.hear (see 0) start told with ⟨error | ⟨⟩, y⟩
  · obtain ⟨t, hdrain⟩ := (hears start).2 error y hheard
    rw [hdrain]
    exact ⟨fun _ h => h, fun h => absurd h (by simp)⟩
  · rw [(hears start).1 y hheard]
    exact ⟨fun _ h => absurd h (by simp), fun _ => ⟨result, rfl⟩⟩

/-- Bytes are refused for a sub-tree only where they complete one that
does not read. -/
theorem LineState.assembled_of_feed {body : List UInt8} {message : String}
    (h : (Scanner.start.feed (see 0) ForecastError.ofScan body start).1
      = .error (.malformedRecord 0 message)) (hblames : BlamesSubtree message) :
    assembled body = .error (.malformedRecord 0 message) := by
  cases hread : assembled body with
  | error error =>
      rw [(feed_assembled body).1 error hread] at h
      exact h
  | ok =>
      obtain ⟨result, hresult⟩ := (feed_assembled body).2 hread
      rw [hresult] at h
      cases result with
      | ok => cases h
      | error f =>
          obtain ⟨-, rfl⟩ := ForecastError.malformedRecord.inj
            (Except.error.inj h)
          exact absurd hblames (not_blamesSubtree_message f.error)

/-- Nothing behind a sub-tree that does not read is taken. -/
theorem LineState.takeBody_unread {body : List UInt8} {error : ForecastError}
    (h : assembled body = .error error) (fault : Option Fault) :
    (takeBody fault body).1 = .error error := by
  have hfed := (feed_assembled body).1 error h
  rcases hfeed : Scanner.start.feed (see 0) ForecastError.ofScan body start with
    ⟨result, x, s⟩
  rw [hfeed] at hfed
  obtain rfl := hfed
  rw [takeBody, takeAll, Scanner.fed_cons, hfeed]

/-- An error that blames no sub-tree is a fault of the text. -/
theorem LineState.takeBody_refused {fault : Option Fault} {body : List UInt8}
    {place : Nat} {message : String}
    (h : (takeBody fault body).1 = .error (.malformedRecord place message))
    (hno : ¬ BlamesSubtree message) :
    ∃ f, (Scanner.transcript [body]).1 = .error f ∧
      ForecastError.ofScan f = .malformedRecord place message := by
  have hnone : (takeBody none body).1
      = .error (.malformedRecord place message) := by
    rw [takeBody, takeAll] at h ⊢
    rcases hfed : Scanner.start.fed (see 0) ForecastError.ofScan start [body]
      with ⟨error, x⟩ | ⟨x, s⟩
    · rw [hfed] at h
      exact h
    · rw [hfed] at h
      cases fault with
      | none => exact h
      | some cause => cases h
  obtain ⟨result, told, hrecord, hears⟩ := Scanner.scan_hears (see 0)
    ForecastError.ofScan Scanner.start [] [body]
  obtain ⟨hend, -⟩ := hear_see 0 start told
  rw [takeBody_eq_scan, hears] at hnone
  rw [Scanner.transcript, hrecord]
  rcases hheard : Scanner.hear (see 0) start told with ⟨error | ⟨⟩, x⟩
  · rw [hheard] at hend
    rw [Scanner.hearTo_of_error hheard] at hnone
    cases hnone
    obtain ⟨message', hblames, herror⟩ := Assembler.acceptAll_error hend.symm
    cases herror
    exact absurd hblames hno
  · rw [Scanner.hearTo_of_ok hheard] at hnone
    cases result with
    | error f => exact ⟨f, rfl, Except.error.inj hnone⟩
    | ok => cases hnone

/-! ## A body that arrives in reads -/

section

variable {size step : Nat} {taken rest : List (List UInt8)} {b : BodyState}

theorem BodyState.Took.arrived_eq (h : Took size step taken b) :
    b.scanner.arrived = taken.flatten.length := by
  have hfeed := h.feed_start
  have harrived := Scanner.drain_arrived (LineState.see 0) ForecastError.ofScan
    false (Scanner.start.receive taken.flatten) LineState.start
  rw [Scanner.feed_eq] at hfeed
  rw [hfeed, Scanner.receive_arrived] at harrived
  exact harrived.trans (Nat.zero_add _)

/-- What was taken completes no sub-tree that does not read. -/
theorem BodyState.Took.assembled_eq (h : Took size step taken b) :
    assembled taken.flatten = .ok () := by
  cases hread : assembled taken.flatten with
  | ok => rfl
  | error error =>
      have hrefused := (LineState.feed_assembled taken.flatten).1 error hread
      rw [h.feed_start] at hrefused
      cases hrefused

/-- A piece is refused for a fault of the text, or for a sub-tree that it
completes. -/
theorem BodyState.Took.feed_error {b' : BodyState} {piece : List UInt8}
    {error : ForecastError} (h : Took size step taken b)
    (hfeed : b.feed piece = (.error error, b')) :
    (∃ f : ScanFault, error = .ofScan f ∧
      f.offset ≤ (taken ++ [piece]).flatten.length) ∨
    ∃ message, BlamesSubtree message ∧
      error = .malformedRecord taken.flatten.length message ∧
      assembled taken.flatten = .ok () ∧
      assembled (taken.flatten ++ piece)
        = .error (.malformedRecord 0 message) := by
  obtain ⟨result, told, s', hrecord, hears⟩ := Scanner.drain_hears
    (LineState.see b.consumed) ForecastError.ofScan false
    (b.scanner.receive piece) []
  have hdrain : (Scanner.drain (LineState.see b.consumed) ForecastError.ofScan
      false (b.scanner.receive piece) b.line).1 = .error error :=
    congrArg Prod.fst hfeed
  rcases hheard : Scanner.hear (LineState.see b.consumed) b.line told with
    ⟨cause | ⟨⟩, y⟩
  · right
    obtain ⟨t, hstopped⟩ := (hears b.line).2 cause y hheard
    rw [hstopped] at hdrain
    cases hdrain
    obtain ⟨hend, -⟩ := LineState.hear_see b.consumed b.line told
    rw [hheard] at hend
    obtain ⟨message, hblames, rfl⟩ := Assembler.acceptAll_error hend.symm
    refine ⟨message, hblames, by rw [h.consumed_eq], h.assembled_eq, ?_⟩
    refine LineState.assembled_of_feed ?_ hblames
    rw [BodyState.feed_start h.feed_start hfeed]
    exact congrArg Except.error (if_pos hblames)
  · left
    rw [(hears b.line).1 y hheard] at hdrain
    cases result with
    | ok => cases hdrain
    | error f =>
        cases hdrain
        refine ⟨f, rfl, ?_⟩
        have hle := Scanner.drain_offset_le hrecord
        rw [Scanner.receive_arrived, h.arrived_eq] at hle
        rw [List.flatten_append, List.flatten_singleton, List.length_append]
        exact hle

/-- A record is malformed for its text, somewhere in the bytes that were read,
or for a sub-tree that was completed by the last read and is blamed on where
that began. -/
theorem BodyState.Ends.malformed {fault : Option Fault} {offset : Nat}
    {message : String} {read : Except ForecastError Unit × BodyState}
    (htook : Took size step taken b) (hends : b.Ends rest fault read)
    (h : read.1 = .error (.malformedRecord offset message)) :
    (¬ BlamesSubtree message ∧
      offset ≤ (taken ++ rest.take 1).flatten.length) ∨
    BlamesSubtree message ∧ offset = taken.flatten.length ∧
      ∃ piece more, rest = piece :: more ∧
        assembled taken.flatten = .ok () ∧
        assembled (taken.flatten ++ piece)
          = .error (.malformedRecord 0 message) := by
  have hscan {f : ScanFault}
      (hf : ForecastError.malformedRecord offset message = .ofScan f) :
      ¬ BlamesSubtree message ∧ offset = f.offset := by
    cases hf
    exact ⟨not_blamesSubtree_message f.error, rfl⟩
  cases hends with
  | complete => cases h
  | fault => cases h
  | @incomplete b' error hfinish =>
      cases h
      have hquiet := LineState.finish_finds htook.feed_start
      have hfinds : (b.line.selector.run isTripKey
          (b.scanner.finish Scanner.record id []).2.1).2 = [] := hquiet
      have hend : (b.scanner.finish (LineState.see b.consumed)
          ForecastError.ofScan b.line).1
          = .error (.malformedRecord offset message) :=
        congrArg Prod.fst hfinish
      rw [(LineState.finish_unfound hfinds).1] at hend
      cases hrecord : (b.scanner.finish Scanner.record id []).1 with
      | ok => rw [hrecord] at hend; cases hend
      | error f =>
          rw [hrecord] at hend
          obtain ⟨hno, hoffset⟩ := hscan (Except.error.inj hend).symm
          have hle := Scanner.finish_offset_le hrecord
          rw [htook.arrived_eq] at hle
          rw [List.take_nil, List.append_nil, hoffset]
          exact .inl ⟨hno, hle⟩
  | @refused b' piece more _ error hfeed =>
      cases h
      rcases htook.feed_error hfeed with
        ⟨f, hf, hle⟩ | ⟨message', hblames, herror, hreads, hunread⟩
      · obtain ⟨hno, hoffset⟩ := hscan hf
        rw [hoffset]
        exact .inl ⟨hno, hle⟩
      · cases herror
        exact .inr ⟨hblames, rfl, piece, more, rfl, hreads, hunread⟩

end

/-- A reading that ends as its text is refused, at a place among the bytes that
were read. -/
structure EndsRefused (f : ScanFault) (size step : Nat) (reads : List Read) :
    Prop where
  result_eq : (BodyState.start.readAll size step reads).1 = .error (.ofScan f)
  offset_le : ∃ taken rest b, piecesOf reads = taken ++ rest ∧
    BodyState.Took size step taken b ∧
    b.Ends rest (faultOf reads) (BodyState.start.readAll size step reads) ∧
    f.offset ≤ (taken ++ rest.take 1).flatten.length

/-- A reading that ends with a sub-tree that does not read, whose closing
bracket is at `place`. It is the read of that byte which is not taken, and the
error tells where this read begins. -/
structure EndsUnread (place : Nat) (message : String) (size step : Nat)
    (reads : List Read) : Prop where
  result_eq : (BodyState.start.readAll size step reads).1
    = .error (.malformedRecord (startOf (piecesOf reads) place) message)
  read : ∃ taken piece more b, piecesOf reads = taken ++ piece :: more ∧
    BodyState.Took size step taken b ∧
    b.Ends (piece :: more) (faultOf reads)
      (BodyState.start.readAll size step reads) ∧
    startOf (piecesOf reads) place = taken.flatten.length ∧
    taken.flatten.length ≤ place ∧
    place < taken.flatten.length + piece.length

end Ridership.Forecast

namespace Ridership.Storage.Delivery.CutInto

open Forecast (BlamesSubtree BodyState ClosesUnread EndsRefused EndsUnread
  ForecastError LineState assembled assembled_append)
open Json (ScanFault)

/-! ## All readings of a delivery -/

variable {d : Delivery} {reads : List Read} (h : d.CutInto reads)
  {size step : Nat}

include h

theorem pieces_flatten : (piecesOf reads).flatten = d.bytes := by
  rw [flatten_piecesOf, h.brings.1]

theorem readAll_placeless (size step : Nat) :
    (BodyState.start.readAll size step reads).1.mapError
        ForecastError.placeless
      = (LineState.takeBody d.fault d.bytes).1 := by
  obtain ⟨pieces, rfl, hpieces⟩ := h
  rw [← hpieces]
  exact (BodyState.readAll_eq_takeBody size step pieces d.fault).1

section

variable {offset : Nat} {message : String}
  (hread : (BodyState.start.readAll size step reads).1
    = .error (.malformedRecord offset message))

include hread

/-- A record that is malformed in one reading is malformed as a whole body. -/
theorem takeBody_malformed : ∃ known, (LineState.takeBody d.fault d.bytes).1
    = .error (.malformedRecord known message) := by
  have hplace := h.readAll_placeless size step
  rw [hread] at hplace
  rw [← hplace]
  show ∃ known, Except.error (ForecastError.placeless _)
    = Except.error (ForecastError.malformedRecord known message)
  rw [ForecastError.placeless]
  split
  · exact ⟨_, rfl⟩
  · exact ⟨_, rfl⟩

omit h in
theorem readAll_malformed :
    ∃ taken rest b, piecesOf reads = taken ++ rest ∧
      BodyState.Took size step taken b ∧
      b.Ends rest (faultOf reads) (BodyState.start.readAll size step reads) ∧
      (¬ BlamesSubtree message ∧
        offset ≤ (taken ++ rest.take 1).flatten.length ∨
      BlamesSubtree message ∧ offset = taken.flatten.length ∧
        ∃ piece more, rest = piece :: more ∧
          assembled taken.flatten = .ok () ∧
          assembled (taken.flatten ++ piece)
            = .error (.malformedRecord 0 message)) := by
  obtain ⟨taken, rest, b, hpieces, htook, hends⟩ := BodyState.readAll_ends
    (.start : BodyState.Took size step [] .start) reads
  exact ⟨taken, rest, b, hpieces, htook, hends, hends.malformed htook hread⟩

/-- A sub-tree that is blamed is there in the body, whatever the reads. -/
theorem closesUnread (hblames : BlamesSubtree message) :
    ∃ place, ClosesUnread d.bytes place message := by
  obtain ⟨taken, rest, b, hpieces, -, -, hcases⟩ := readAll_malformed hread
  rcases hcases with ⟨hno, -⟩ | ⟨-, -, piece, more, rfl, -, hunread⟩
  · exact absurd hblames hno
  · refine ClosesUnread.exists_of_error ?_
    rw [← h.pieces_flatten, hpieces, List.flatten_append, List.flatten_cons,
      ← List.append_assoc]
    exact assembled_append hunread _

theorem endsUnread {place : Nat} (hplace : ClosesUnread d.bytes place message)
    (hblames : BlamesSubtree message) :
    EndsUnread place message size step reads := by
  obtain ⟨taken, rest, b, hpieces, htook, hends, hcases⟩ :=
    readAll_malformed hread
  rcases hcases with ⟨hno, -⟩ | ⟨-, rfl, piece, more, rfl, hreads, hunread⟩
  · exact absurd hblames hno
  · rw [← h.pieces_flatten, hpieces, List.flatten_append, List.flatten_cons,
      ← List.append_assoc] at hplace
    obtain ⟨hfrom, hto⟩ := hplace.between hreads hunread
    have hstart : startOf (piecesOf reads) place = taken.flatten.length := by
      rw [hpieces, startOf_append hfrom hto]
    exact ⟨by rw [hstart, hread], taken, piece, more, b, hpieces, htook,
      hends, hstart, hfrom, hto⟩

theorem endsRefused {f : ScanFault} (hno : ¬ BlamesSubtree message)
    (hf : (LineState.takeBody d.fault d.bytes).1 = .error (.ofScan f)) :
    EndsRefused f size step reads := by
  have hplace := h.readAll_placeless size step
  rw [hread, hf] at hplace
  have hsame := ForecastError.eq_ofScan_of_placeless (Except.error.inj hplace)
  obtain ⟨rfl, -⟩ := ForecastError.malformedRecord.inj hsame
  obtain ⟨taken, rest, b, hpieces, htook, hends, hcases⟩ :=
    readAll_malformed hread
  rcases hcases with ⟨-, hle⟩ | ⟨hblames, -⟩
  · exact ⟨by rw [hread, hsame], taken, rest, b, hpieces, htook, hends, hle⟩
  · exact absurd hblames hno

end

end Ridership.Storage.Delivery.CutInto

namespace Ridership.Forecast

open Json (Scanner)
open Log (Line)
open Storage (ByteSource Delivery Read piecesOf_pieces)

/-- A line is read as the reads of its delivery are. -/
theorem readLine_eq_readAll {source : ByteSource} {line : Line} {d : Delivery}
    (hslice : source.slice line.start line.stop = .ok d)
    (settings : Settings) :
    (readLine source settings line).2
      = (BodyState.start.readAll line.bodyLength settings.lineProgressStep
          (d.reads settings.readSize)).1 := by
  simp only [readLine, hslice]

/-- What is said of a malformed record does not depend on the reads, but for
one place. Either no reading of the bytes comes to one. Or their text is
refused, and then at the same place in all readings, which is among the bytes
that were read by then. Or a sub-tree does not read, and then every reading
tells where the read begins that has its closing bracket; with full reads this
is a multiple of their size. -/
theorem malformed_placed (d : Delivery) :
    ((∀ size step reads offset message, d.CutInto reads →
        (BodyState.start.readAll size step reads).1
          ≠ .error (.malformedRecord offset message)) ∧
      ∀ (source : ByteSource) (settings : Settings) (line : Line)
        (offset : Nat) (message : String),
        source.slice line.start line.stop = .ok d →
          (readLine source settings line).2
            ≠ .error (.malformedRecord offset message)) ∨
    (∃ f, (Scanner.transcript [d.bytes]).1 = .error f ∧
      (∀ size step reads, d.CutInto reads → EndsRefused f size step reads) ∧
      ∀ (source : ByteSource) (settings : Settings) (line : Line),
        source.slice line.start line.stop = .ok d →
          (readLine source settings line).2 = .error (.ofScan f)) ∨
    ∃ place message, ClosesUnread d.bytes place message ∧
      (∀ size step reads, d.CutInto reads →
        EndsUnread place message size step reads) ∧
      ∀ (source : ByteSource) (settings : Settings) (line : Line),
        source.slice line.start line.stop = .ok d →
          let n := max 1 settings.readSize
          (readLine source settings line).2
            = .error (.malformedRecord (n * (place / n)) message) := by
  by_cases hbody : ∃ known message, (LineState.takeBody d.fault d.bytes).1
      = .error (.malformedRecord known message)
  · obtain ⟨known, message, hbody⟩ := hbody
    -- Every reading comes to this error, up to its place.
    have hall (size step : Nat) (reads : List Read) (h : d.CutInto reads) :
        ∃ offset, (BodyState.start.readAll size step reads).1
          = .error (.malformedRecord offset message) :=
      ForecastError.error_of_placeless
        ((h.readAll_placeless size step).trans hbody)
    by_cases hblames : BlamesSubtree message
    · refine .inr (.inr ?_)
      obtain ⟨offset, hwhole⟩ := hall 0 0 _ (d.cutInto_reads 0)
      obtain ⟨place, hplace⟩ :=
        (d.cutInto_reads 0).closesUnread hwhole hblames
      have hends (size step : Nat) (reads : List Read)
          (h : d.CutInto reads) : EndsUnread place message size step reads := by
        obtain ⟨offset, hread⟩ := hall size step reads h
        exact h.endsUnread hread hplace hblames
      refine ⟨place, message, hplace, hends,
        fun source settings line hslice => ?_⟩
      obtain ⟨pieces, hreads, -, hstarts⟩ := d.reads_pieces settings.readSize
      rw [readLine_eq_readAll hslice,
        (hends _ _ _ (d.cutInto_reads settings.readSize)).result_eq, hreads,
        piecesOf_pieces, hstarts place hplace.lt]
    · refine .inr (.inl ?_)
      obtain ⟨f, htranscript, hf⟩ := LineState.takeBody_refused hbody hblames
      have hends (size step : Nat) (reads : List Read)
          (h : d.CutInto reads) : EndsRefused f size step reads := by
        obtain ⟨offset, hread⟩ := hall size step reads h
        exact h.endsRefused hread hblames (hf ▸ hbody)
      refine ⟨f, htranscript, hends, fun source settings line hslice => ?_⟩
      rw [readLine_eq_readAll hslice]
      exact (hends _ _ _ (d.cutInto_reads settings.readSize)).result_eq
  · left
    have hnone (size step : Nat) (reads : List Read) (offset : Nat)
        (message : String) (h : d.CutInto reads) :
        (BodyState.start.readAll size step reads).1
          ≠ .error (.malformedRecord offset message) := by
      intro hread
      obtain ⟨known, hknown⟩ := h.takeBody_malformed hread
      exact hbody ⟨known, message, hknown⟩
    refine ⟨hnone, fun source settings line offset message hslice => ?_⟩
    rw [readLine_eq_readAll hslice]
    exact hnone _ _ _ offset message (d.cutInto_reads settings.readSize)

/-- A station that does not read, with its closing bracket at 52: the place told
goes by the size of the reads. -/
theorem malformed_placed_of_station :
    ∃ message, ClosesUnread tripThenStation 52 message ∧
      ∀ settings : Settings,
        let n := max 1 settings.readSize
        (readLine (.memory tripThenStation) settings
            (.between 0 tripThenStation.length)).2
          = .error (.malformedRecord (n * (52 / n)) message) := by
  have haccepts : Scanner.Accepts tripThenStation := by decide +kernel
  have hcut : tripThenStation
      = tripThenStation.take 52 ++ [0x7D] ++ tripThenStation.drop 53 := by
    decide +kernel
  have hreads : assembled (tripThenStation.take 52) = .ok () := by
    have hok : (assembled (tripThenStation.take 52)).isOk = true := by
      decide +kernel
    cases h : assembled (tripThenStation.take 52) with
    | ok => rfl
    | error error =>
        rw [h] at hok
        cases hok
  have hfails :
      (assembled (tripThenStation.take 52 ++ [0x7D])).isOk = false := by
    decide +kernel
  cases hunread : assembled (tripThenStation.take 52 ++ [0x7D]) with
  | ok =>
      rw [hunread] at hfails
      cases hfails
  | error error =>
      rcases malformed_placed ⟨tripThenStation, none⟩ with
        ⟨hnone, -⟩ | ⟨f, hrefused, -⟩ | ⟨place, message, hplace, -, hline⟩
      · -- All of the body comes to the error that its station comes to.
        have hbody := assembled_append hunread (tripThenStation.drop 53)
        rw [← hcut] at hbody
        obtain ⟨message, -, rfl⟩ := assembled_error hbody
        have hwhole := Delivery.cutInto_reads ⟨tripThenStation, none⟩ 0
        obtain ⟨offset, hread⟩ := ForecastError.error_of_placeless
          ((hwhole.readAll_placeless 0 0).trans
            (LineState.takeBody_unread hbody none))
        exact absurd hread (hnone 0 0 _ offset message hwhole)
      · rw [haccepts.1] at hrefused
        cases hrefused
      · obtain rfl : place = 52 := by
          have hplace' := hplace
          rw [hcut] at hplace'
          obtain ⟨hfrom, hto⟩ := hplace'.between hreads hunread
          have hlength : (tripThenStation.take 52).length = 52 := by
            decide +kernel
          rw [List.length_singleton] at hto
          omega
        exact ⟨message, hplace, fun settings =>
          hline _ settings _ (memory_slice_whole tripThenStation)⟩

end Ridership.Forecast

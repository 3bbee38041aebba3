import Ridership.Proofs.ForeignBytes
import Ridership.Proofs.Listening
import Ridership.Proofs.LossyCuts

/-!
# A text that breaks off inside a character

The first bytes of a text are told as they are told in the whole text, and what
more there is comes behind (`told_prefix`). A text may also break off inside a
character, and is then given with a replacement character in its place, so that
two texts are to be compared that differ from there on. Both go on with a byte
beyond ASCII. A scanner that has taken all before it (`Spent`) has a token under
way or none. A string goes on with either byte, and the text that breaks off
has no quote to end it. Any other token ends there as it would at the end of the
text, so both texts are told the same (`lastTold`), and then both are refused.

A text whose beginning is still to be looked at needs a word of its own, for the
replacement character shares its first byte with the byte order mark.
-/

namespace Ridership.Json

/-! ## What is told up to a foreign byte -/

theorem behindBlanks_append_of_stop {bytes : List UInt8}
    (h : behindBlanks bytes ≠ []) (more : List UInt8) :
    behindBlanks (bytes ++ more) = behindBlanks bytes ++ more :=
  dropWhile_append_of_stop h more

namespace Foreign

variable {x : UInt8} (hx : Foreign x)

include hx

theorem behindBlanks_foreign (tail : List UInt8) :
    behindBlanks (x :: tail) = x :: tail := by
  have hne {b : UInt8} (hb : b.toNat < 0x80) : x ≠ b := hx.ne hb
  rw [behindBlanks, List.dropWhile_cons, if_neg]
  simp [hne]

theorem behindBlanks_append (bytes tail : List UInt8) :
    behindBlanks (bytes ++ x :: tail) = behindBlanks bytes ++ x :: tail := by
  rw [behindBlanks, List.dropWhile_append, ← behindBlanks, ← behindBlanks,
    hx.behindBlanks_foreign]
  split
  · next hempty => rw [List.isEmpty_iff.mp hempty, List.nil_append]
  · rfl

end Foreign

/-- What is told of a token where the grammar lets it pass. -/
def Grammar.toldOf (g : Grammar) (depth : Nat) (t : Token) :
    List (Event × Nat) :=
  match (g.accept t).2 with
  | .signal (.event e) => [(e, (e.depths depth).1)]
  | _ => []

namespace Scanner

variable {s : Scanner} {g : Grammar} {depth : Nat} {bytes : List UInt8}
  {b : UInt8} {rest : List UInt8}

/-- The next step takes the token that stands behind the blanks. -/
theorem StandsAt.next_behind (h : s.StandsAt g depth bytes)
    (hb : behindBlanks bytes = b :: rest) :
    ∃ u : Scanner, u.StandsAt g depth (b :: rest) ∧
      s.next false = u.token false := by
  refine ⟨s.skip false, ⟨h.grammar, h.depth, ?_, h.due, h.fresh⟩, ?_⟩
  · have hstop : behindBlanks s.pending ≠ [] := by
      rw [h.pending, hb]
      simp
    rw [← hb, ← h.pending]
    exact skipBlanks_eq (.inr hstop)
  · rw [next_of_begun h.due (by simp [h.fresh]), open_of_not_fresh h.fresh]

/-- Where no token stands, nothing more is told. -/
theorem StandsAt.drain_of_no_token (h : s.StandsAt g depth bytes)
    (hb : behindBlanks bytes = b :: rest)
    (hread : ∀ t more, Token.read false b rest ≠ .token t more)
    (before : List (Event × Nat)) :
    (drain record id false s before).2.1 = before := by
  obtain ⟨u, hu, hnext⟩ := h.next_behind hb
  unfold token at hnext
  rw [hu.pending] at hnext
  cases hr : Token.read false b rest with
  | unfinished =>
      simp only [hr] at hnext
      rw [drain_of_idle hnext]
  | token t more => exact absurd hr (hread t more)
  | fault fault first last more =>
      simp only [hr] at hnext
      rw [drain_of_fault hnext]

/-- A token that is taken leads to an event, or to nothing that is told, or
to a fault. -/
theorem react_cases {s : Scanner} {t : Token} (ht : t ≠ .endOfText)
    (p : Position) (length : Nat) :
    (∃ g' e, s.grammar.accept t = (g', .signal (.event e)) ∧
      s.react p length t = (.event e (e.depths s.depth).1,
        { s with grammar := g', depth := (e.depths s.depth).2 })) ∨
    (∃ g', s.grammar.accept t = (g', .silent) ∧
      s.react p length t = (.silent, { s with grammar := g' })) ∨
    ∃ g' fault due f s', s.grammar.accept t = (g', .fault fault due) ∧
      s.react p length t = (.fault f, s') := by
  have htold := Grammar.accept_told (g := s.grammar) ht
  rcases ha : s.grammar.accept t with ⟨g', signal | _ | ⟨fault, due⟩⟩
  · cases signal with
    | ended =>
        rw [ha] at htold
        exact absurd rfl htold
    | event e => exact .inl ⟨g', e, rfl, react_of_event ha p length⟩
  · exact .inr (.inl ⟨g', rfl, react_of_silent ha p length⟩)
  · obtain ⟨f, hf⟩ := react_of_fault ha p length
    exact .inr (.inr ⟨g', fault, due, f, _, rfl, Prod.ext hf rfl⟩)

/-- Where a token stands, it is told, and then what stands behind it, unless the
token is out of place. -/
theorem StandsAt.drain_token (h : s.StandsAt g depth bytes)
    (hb : behindBlanks bytes = b :: rest) {t : Token} {more : Nat}
    (hread : Token.read false b rest = .token t more)
    (before : List (Event × Nat)) :
    (g.toldOf depth t = [] ∧ (drain record id false s before).2.1 = before) ∨
    ∃ s' g' depth', StandsAt s' g' depth' (rest.drop more) ∧
      drain record id false s before
        = drain record id false s' (before ++ g.toldOf depth t) := by
  obtain ⟨u, hu, hnext⟩ := h.next_behind hb
  have hin := Token.read_within false b rest
  have hg : (u.take more rest).grammar = g := hu.grammar
  have hdepth : (u.take more rest).depth = depth := hu.depth
  unfold token at hnext
  rw [hu.pending] at hnext
  simp only [hread] at hnext
  rw [hread] at hin
  unfold Grammar.toldOf
  rcases react_cases (s := u.take more rest) hin.1 u.position (more + 1) with
    ⟨g', e, ha, hreact⟩ | ⟨g', ha, hreact⟩ | ⟨g', fault, due, f, s', ha, hreact⟩
  · rw [hreact, hdepth] at hnext
    rw [drain_of_event hnext, ← hg, ha]
    refine .inr ⟨_, g', (e.depths depth).2, ?_, rfl⟩
    exact ⟨rfl, rfl, rfl, hu.due, hu.fresh⟩
  · rw [hreact] at hnext
    rw [drain_of_silent hnext, ← hg, ha, List.append_nil]
    refine .inr ⟨_, g', depth, ?_, rfl⟩
    exact ⟨rfl, hdepth, rfl, hu.due, hu.fresh⟩
  · rw [hreact] at hnext
    rw [drain_of_fault hnext, ← hg, ha]
    exact .inl ⟨rfl, rfl⟩

/-- Where a token stands, and nothing is told behind it, it alone is told. -/
theorem StandsAt.drain_of_token (h : s.StandsAt g depth bytes)
    (hb : behindBlanks bytes = b :: rest) {t : Token} {more : Nat}
    (hread : Token.read false b rest = .token t more)
    (hquiet : ∀ (s' : Scanner) (g' : Grammar) (depth' : Nat)
      (before : List (Event × Nat)), s'.StandsAt g' depth' (rest.drop more) →
        (drain record id false s' before).2.1 = before)
    (before : List (Event × Nat)) :
    (drain record id false s before).2.1 = before ++ g.toldOf depth t := by
  rcases h.drain_token hb hread before with
    ⟨hnone, htold⟩ | ⟨s', g', depth', hs', hdrain⟩
  · rw [htold, hnone, List.append_nil]
  · rw [hdrain]
    exact hquiet s' g' depth' _ hs'

/-- What is told of a spent scanner's pending bytes once they are known to end:
the number that they are, if they are one and may be there. -/
def lastTold (s : Scanner) : List (Event × Nat) :=
  match behindBlanks s.pending with
  | [] => []
  | b :: rest =>
      match Token.read true b rest with
      | .token t _ => s.grammar.toldOf s.depth t
      | _ => []

variable {x : UInt8} {tail : List UInt8}

theorem StandsAt.drain_of_foreign (hx : Foreign x)
    (h : s.StandsAt g depth (x :: tail)) (before : List (Event × Nat)) :
    (drain record id false s before).2.1 = before :=
  h.drain_of_no_token (hx.behindBlanks_foreign tail) (hx.read_ne_token tail)
    before

/-- Behind a spent scanner's bytes, if they begin no string, a foreign byte
leads to what they are told to be at their end, and to nothing else. -/
theorem Spent.drain_foreign (h : s.Spent) (hx : Foreign x)
    (hstring : ∀ rest, behindBlanks s.pending ≠ 0x22 :: rest)
    (tail : List UInt8) (before : List (Event × Nat)) :
    (drain record id false (s.receive (x :: tail)) before).2.1
      = before ++ s.lastTold := by
  have hs : (s.receive (x :: tail)).StandsAt s.grammar s.depth
      (s.pending ++ x :: tail) := ⟨rfl, rfl, rfl, h.due_eq, h.fresh_eq⟩
  have hbehind := hx.behindBlanks_append s.pending tail
  unfold lastTold
  cases hb : behindBlanks s.pending with
  | nil =>
      rw [hb, List.nil_append] at hbehind
      rw [List.append_nil]
      exact hs.drain_of_no_token hbehind (hx.read_ne_token tail) before
  | cons b rest =>
      rw [hb, List.cons_append] at hbehind
      have hquote : Char.ofNat b.toNat ≠ '"' := by
        intro heq
        have hcode := (toNat_ofNat_byte b).symm.trans (congrArg Char.toNat heq)
        obtain rfl : b = 0x22 := UInt8.toNat_inj.mp hcode
        exact hstring rest hb
      dsimp only
      cases hr : Token.read true b rest with
      | token t more =>
          -- It is a number of all the pending bytes, and nothing is left but
          -- what a foreign byte begins.
          obtain ⟨-, rfl⟩ := Token.read_unfinished (h.unfinished b rest hb) hr
          refine hs.drain_of_token hbehind
            ((Token.read_foreign hx tail hquote).mpr hr) ?_ before
          intro s' g' depth' before' hs'
          rw [List.drop_left] at hs'
          exact hs'.drain_of_foreign hx before'
      | unfinished | fault =>
          rw [List.append_nil]
          refine hs.drain_of_no_token hbehind (fun t more ht => ?_) before
          rw [Token.read_foreign hx tail hquote, hr] at ht
          cases ht

/-- A string under way is told of nothing where no quote comes. -/
theorem Spent.drain_string (h : s.Spent)
    (hstring : behindBlanks s.pending = 0x22 :: rest) {more : List UInt8}
    (hmore : 0x22 ∉ more) (before : List (Event × Nat)) :
    (drain record id false (s.receive more) before).2.1 = before := by
  have hs : (s.receive more).StandsAt s.grammar s.depth
      (s.pending ++ more) := ⟨rfl, rfl, rfl, h.due_eq, h.fresh_eq⟩
  have hbehind : behindBlanks (s.pending ++ more) = 0x22 :: (rest ++ more) := by
    rw [behindBlanks_append_of_stop (by simp [hstring]), hstring,
      List.cons_append]
  have hread : Token.read false 0x22 (rest ++ more) = .unfinished :=
    Token.readString_append_of_not_mem (h.unfinished _ _ hstring) hmore
  refine hs.drain_of_no_token hbehind (fun t n ht => ?_) before
  rw [hread] at ht
  cases ht

/-! ## A character broken off -/

theorem before_prefix_drain (ending : Bool) (s : Scanner)
    (before : List (Event × Nat)) :
    before <+: (drain record id ending s before).2.1 := by
  refine (drain_keeps (P := fun told => before <+: told)
    (Q := fun _ => True) ?_ (fun _ => trivial) ending s
    (List.prefix_refl _)).1
  intro told e depth hbefore
  exact ⟨hbefore.trans (List.prefix_append _ _), fun _ _ => trivial⟩

/-- What is told of bytes is told of them with more behind them. -/
theorem drain_receive_prefix (hs : s.unended) (more : List UInt8)
    (before : List (Event × Nat)) :
    (drain record id false s before).2.1
      <+: (drain record id false (s.receive more) before).2.1 := by
  rcases hdrain : drain record id false s before with ⟨fault | ⟨⟩, told, s'⟩
  · rw [drain_receive_of_error hdrain]
  · rw [drain_receive hs hdrain]
    exact before_prefix_drain _ _ _

/-- Where one byte beyond ASCII is in the place of another, and no quote comes
behind it, no more is told. -/
theorem drain_foreign_prefix (hs : s.unended) (hbegun : s.Begun)
    {x y : UInt8} (hx : Foreign x) (hy : Foreign y) {tail : List UInt8}
    (htail : 0x22 ∉ x :: tail) (tail' : List UInt8)
    (before : List (Event × Nat)) :
    (drain record id false (s.receive (x :: tail)) before).2.1
      <+: (drain record id false (s.receive (y :: tail')) before).2.1 := by
  rcases hdrain : drain record id false s before with ⟨fault | ⟨⟩, told, s'⟩
  · rw [drain_receive_of_error hdrain, drain_receive_of_error hdrain]
  · have hspent := drain_spent hs hbegun hdrain
    rw [drain_receive hs hdrain, drain_receive hs hdrain]
    by_cases hstring : ∃ rest, behindBlanks s'.pending = 0x22 :: rest
    · obtain ⟨rest, hrest⟩ := hstring
      rw [hspent.drain_string hrest htail]
      exact before_prefix_drain _ _ _
    · rw [not_exists] at hstring
      rw [hspent.drain_foreign hx hstring, hspent.drain_foreign hy hstring]

/-- What is told of the bytes of a text before its end, or before the first
thing wrong in it. -/
def told (bytes : List UInt8) : List (Event × Nat) :=
  (Scanner.start.feed record id bytes []).2.1

theorem told_prefix (bytes more : List UInt8) :
    told bytes <+: told (bytes ++ more) := by
  have hreceive := Scanner.start.receive_receive bytes more
  unfold told
  rw [feed_eq, feed_eq, ← hreceive]
  exact drain_receive_prefix (by simp [unended, receive, start]) more []

/-- A text with another beginning than a byte order mark is told as if none
could have come. -/
theorem told_of_no_mark {bytes : List UInt8} (hlength : 3 ≤ bytes.length)
    (hmark : bytes.take 3 ≠ byteOrderMark) :
    told bytes
      = (drain record id false (Scanner.start.open.receive bytes) []).2.1 := by
  have hopen : (Scanner.start.receive bytes).open
      = Scanner.start.open.receive bytes := by
    show (if true = true then _ else _) = _
    rw [if_pos rfl]
    exact if_neg hmark
  have hnext : (Scanner.start.receive bytes).next false
      = (Scanner.start.open.receive bytes).next false := by
    rw [next_of_begun rfl (fun _ => hlength), hopen,
      next_of_begun rfl (fun hf => absurd hf Bool.false_ne_true), ← hopen,
      open_of_not_fresh (open_fresh _)]
  unfold told
  rw [feed_eq, drain_congr hnext]

theorem told_of_foreign {x : UInt8} (hx : Foreign x) {tail : List UInt8}
    (hlength : 3 ≤ (x :: tail).length)
    (hmark : (x :: tail).take 3 ≠ byteOrderMark) : told (x :: tail) = [] := by
  have hs : (Scanner.start.open.receive (x :: tail)).StandsAt .start 0
      (x :: tail) := ⟨rfl, rfl, rfl, rfl, rfl⟩
  rw [told_of_no_mark hlength hmark, hs.drain_of_foreign hx]

/-- Fewer bytes than a mark has do not become one by a replacement
character. -/
theorem replaced_ne_mark {a : UInt8} {front : List UInt8}
    (h : front.length < 2) :
    (a :: (front ++ [0xEF, 0xBF, 0xBD])).take 3 ≠ byteOrderMark := by
  match front with
  | [] => simp [byteOrderMark]
  | [c] => simp [byteOrderMark]
  | _ :: _ :: _ => exact absurd h (by simp)

/-- What is told of a text that breaks off with a replacement character is told
of the text that goes on with any other character beyond ASCII. -/
theorem told_replaced (front : List UInt8) {y : UInt8} (hy : Foreign y)
    {tail : List UInt8} (htail : tail ≠ []) :
    told (front ++ [0xEF, 0xBF, 0xBD]) <+: told (front ++ y :: tail) := by
  have hx : Foreign 0xEF := by decide
  have hquote : (0x22 : UInt8) ∉ [0xEF, 0xBF, 0xBD] := by decide
  have hrest := List.length_pos_iff.mpr htail
  by_cases hlength : 3 ≤ front.length
  · -- Whether there is a mark is known by what is in front.
    unfold told
    rw [feed_eq, feed_eq, ← receive_receive, ← receive_receive]
    exact drain_foreign_prefix (by simp [unended, receive, start])
      (fun _ => ⟨rfl, hlength⟩) hx hy hquote tail []
  · -- Two bytes at most are in front, so the third is not the mark's in either
    -- text, if the first is.
    cases front with
    | nil =>
        rw [List.nil_append, told_of_foreign hx (by decide) (by decide)]
        exact List.nil_prefix
    | cons a front =>
        by_cases ha : Foreign a
        · rw [List.cons_append, told_of_foreign ha (by simp)
            (replaced_ne_mark (by simpa using hlength))]
          exact List.nil_prefix
        · have hno : a ≠ 0xEF := by
            rintro rfl
            exact ha hx
          have hmark (more : List UInt8) :
              (a :: front ++ more).take 3 ≠ byteOrderMark := fun heq =>
            hno (List.cons.inj heq).1
          rw [told_of_no_mark (by simp) (hmark _),
            told_of_no_mark (by simp; omega) (hmark _),
            ← receive_receive, ← receive_receive]
          exact drain_foreign_prefix
            (by simp [unended, receive, open_due, start])
            (fun hf => absurd hf Bool.false_ne_true) hx hy hquote tail []

/-! ## Bytes read as text -/

/-- A character beyond ASCII is more than one byte, and the first is beyond
ASCII too. -/
theorem utf8EncodeChar_foreign {c : Char} (hc : 0x80 ≤ c.toNat) :
    ∃ y tail, String.utf8EncodeChar c = y :: tail ∧ Foreign y ∧
      tail ≠ [] := by
  have hbytes (y : UInt8) (h : y ∈ String.utf8EncodeChar c) : Foreign y :=
    Text.Utf8.le_of_mem_utf8EncodeChar hc h
  have hlarge : ¬c.val.toNat ≤ 127 := Nat.not_le_of_lt hc
  have hlength : 2 ≤ (String.utf8EncodeChar c).length := by
    rw [String.utf8EncodeChar, if_neg hlarge]
    split
    · exact Nat.le_refl 2
    · split <;> simp
  match hencoded : String.utf8EncodeChar c with
  | [] | [_] => simp [hencoded] at hlength
  | y :: z :: tail =>
      exact ⟨y, z :: tail, rfl, hbytes y (by simp [hencoded]), by simp⟩

open Text.Utf8 (encode lossy bytesOf)

/-- What is told of the first of some bytes, read as text, is what is told first
of all of them, wherever they are cut. -/
theorem told_lossy_take (bytes : List UInt8) (n : Nat) :
    told (encode (lossy (bytes.take n))) <+: told (encode (lossy bytes)) := by
  show told (bytesOf (lossy (bytes.take n)).toList)
    <+: told (bytesOf (lossy bytes).toList)
  rcases Text.Utf8.lossy_take bytes n with
    ⟨back, hback⟩ | ⟨front, c, back, hcut, hwhole, hc⟩
  · rw [← hback, Text.Utf8.bytesOf_append]
    exact told_prefix _ _
  · obtain ⟨y, tail, hencoded, hy, htail⟩ := utf8EncodeChar_foreign hc
    have hreplaced : bytesOf ['\uFFFD'] = [0xEF, 0xBF, 0xBD] := by decide
    rw [hcut, hwhole, Text.Utf8.bytesOf_append, Text.Utf8.bytesOf_append,
      hreplaced, Text.Utf8.bytesOf_cons, hencoded, List.cons_append]
    exact told_replaced _ hy (by simp [htail])

end Scanner

end Ridership.Json

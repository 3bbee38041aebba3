import Ridership.Proofs.BlankTexts
import Ridership.Proofs.CutTexts
import Ridership.Proofs.EventDepths
import Ridership.Proofs.TokenReach
import Ridership.Proofs.Truncation

/-!
# A bracket is told with its own byte

A scanner may be behind with what it tells. It waits for the byte behind a
number and for the rest of a word, so an event need not come with the byte that
completes its token. Closing brackets are never late. With one byte more, a
scanner that has told all it could tells what it waited for, which takes all the
bytes that were there before and is no bracket, and perhaps what the new byte is
itself (`Spent.drain_byte`). A bracket is told last then, and nothing is left
pending. So one byte completes one sub-tree at most, and it is the closing
bracket of that sub-tree (`Selector.run_told_concat`).

A text is looked at from three bytes on, and up to there a closing bracket may
be late indeed. But three bytes are not enough for a sub-tree under a key, as
the first event of a text is none.
-/

namespace Ridership.Json

/-! ## Brackets -/

/-- The byte that closes the container which an event closes. -/
def Event.bracket? : Event → Option UInt8
  | .endObject => some 0x7D
  | .endArray => some 0x5D
  | _ => none

/-- The byte that a token consists of, if it closes a container. -/
def Token.bracket? : Token → Option UInt8
  | .closeObject => some 0x7D
  | .closeArray => some 0x5D
  | _ => none

/-- A bracket is a token of its own. -/
theorem Token.read_of_bracket {t : Token} {b : UInt8}
    (h : t.bracket? = some b) (ending : Bool) (rest : List UInt8) :
    Token.read ending b rest = .token t 0 := by
  cases t <;> cases h <;> rfl

theorem StringState.read_bracket {s : StringState} {index more : Nat}
    {bytes : List UInt8} {t : Token}
    (h : s.read index bytes = .token t more) : t.bracket? = none := by
  fun_induction StringState.read s index bytes with
  | case1 | case2 | case4 | case7 | case9 => cases h
  | case3 =>
      cases h
      rfl
  | case5 | case6 | case8 | case10 | case11 | case12 =>
      rename_i ih
      exact ih h

theorem Token.readWord_bracket {ending : Bool} {word : String} {t t' : Token}
    {bytes : List UInt8} {more : Nat} (ht : t.bracket? = none)
    (h : readWord ending word t bytes = .token t' more) :
    t'.bracket? = none := by
  obtain ⟨-, rfl, -⟩ := readWord_eq_token.mp h
  exact ht

theorem Token.readNumber_bracket {ending : Bool} {bytes : List UInt8}
    {t : Token} {more : Nat} (h : readNumber ending bytes = .token t more) :
    t.bracket? = none := by
  unfold readNumber at h
  split at h <;> cases h
  rfl

/-- A token that closes a container begins with its bracket. -/
theorem Token.read_bracket {ending : Bool} {b c : UInt8} {rest : List UInt8}
    {t : Token} {more : Nat} (h : Token.read ending b rest = .token t more)
    (ht : t.bracket? = some c) : b = c := by
  have hbyte {char : Char} (hchar : Char.ofNat b.toNat = char) {n : UInt8}
      (hn : char.toNat = n.toNat) : b = n := by
    have hcode := (toNat_ofNat_byte b).symm.trans (congrArg Char.toNat hchar)
    exact UInt8.toNat_inj.mp (hcode.trans hn)
  have hno (hnone : t.bracket? = none) : b = c := by
    rw [hnone] at ht
    cases ht
  unfold Token.read at h
  split at h
  case h_1 | h_3 | h_5 | h_6 =>
      cases h
      cases ht
  case h_2 hchar | h_4 hchar =>
      cases h
      cases ht
      exact hbyte hchar rfl
  case h_7 =>
      rw [readString_eq] at h
      exact hno (StringState.read_bracket h)
  case h_8 | h_9 | h_10 => exact hno (readWord_bracket rfl h)
  case h_11 => cases h
  case h_12 =>
      split at h
      · exact hno (readNumber_bracket h)
      · cases h

/-- What was waited for is no bracket. -/
theorem Token.bracket_of_unfinished {ending : Bool} {b : UInt8}
    {rest rest' : List UInt8} {t : Token} {more : Nat}
    (h : Token.read ending b rest = .unfinished)
    (hread : Token.read ending b rest' = .token t more) :
    t.bracket? = none := by
  cases ht : t.bracket? with
  | none => rfl
  | some c =>
      obtain rfl := read_bracket hread ht
      rw [read_of_bracket ht] at h
      cases h

/-! ## Events that close -/

theorem Grammar.value_bracket {g g' : Grammar} {t : Token} {e : Event}
    (h : g.value t = (g', .signal (.event e))) : e.bracket? = none := by
  cases t <;> simp only [value, enter] at h
  case openObject | openArray =>
      split at h <;> cases h
      rfl
  all_goals
    cases h
    try rfl

theorem Grammar.key_bracket {g g' : Grammar} {t : Token} {e : Event}
    (h : g.key t = (g', .signal (.event e))) : e.bracket? = none := by
  cases t <;> cases h
  rfl

/-- An event that closes a container comes of the token for it. -/
theorem Grammar.accept_bracket {g g' : Grammar} {t : Token} {e : Event}
    {b : UInt8} (h : g.accept t = (g', .signal (.event e)))
    (he : e.bracket? = some b) : t.bracket? = some b := by
  have hno (hnone : e.bracket? = none) : t.bracket? = some b := by
    rw [hnone] at he
    cases he
  unfold accept at h
  split at h
  case h_1 =>
      split at h
      · split at h <;> cases h
      · exact hno (value_bracket h)
  case h_2 | h_3 =>
      split at h
      · cases h
        try exact he
      · exact hno (key_bracket h)
  case h_4 =>
      split at h <;> cases h
  case h_5 => exact hno (value_bracket h)
  case h_6 =>
      split at h <;> cases h
      exact he
  case h_7 | h_8 =>
      split at h
      · cases h
        try exact he
      · exact hno (value_bracket h)
  case h_9 =>
      split at h
      · cases h
      · cases h
        exact he
      · cases h

theorem Grammar.toldOf_bracket {g : Grammar} {depth : Nat} {t : Token}
    {p : Event × Nat} {b : UInt8} (hp : p ∈ g.toldOf depth t)
    (hb : p.1.bracket? = some b) :
    g.toldOf depth t = [p] ∧ t.bracket? = some b := by
  unfold toldOf at hp ⊢
  split at hp
  · next e ha =>
      obtain rfl := List.mem_singleton.mp hp
      exact ⟨rfl, accept_bracket (Prod.ext rfl ha) hb⟩
  · cases hp

/-! ## What one more byte tells -/

/-- Events that close nothing. -/
def Quiet (told : List (Event × Nat)) : Prop :=
  ∀ p ∈ told, p.1.bracket? = none

theorem Quiet.nil : Quiet [] :=
  List.forall_mem_nil _

/-- A run behind some events that had one byte more. It tells events that close
nothing, or the byte is a bracket, told last and with nothing left pending. -/
inductive TakesByte (b : UInt8) (before : List (Event × Nat)) :
    Except ScanFault Unit × List (Event × Nat) × Scanner → Prop
  | quiet {result : Except ScanFault Unit} {more : List (Event × Nat)}
      {s : Scanner} (h : Quiet more) :
      TakesByte b before (result, before ++ more, s)
  | bracket {front : List (Event × Nat)} {p : Event × Nat} {s : Scanner}
      (h : Quiet front) (hb : p.1.bracket? = some b) (hs : s.pending = []) :
      TakesByte b before (.ok (), before ++ (front ++ [p]), s)

section

variable {b : UInt8} {before front : List (Event × Nat)}
  {run : Except ScanFault Unit × List (Event × Nat) × Scanner}

theorem TakesByte.nothing (h : run.2.1 = before) : TakesByte b before run := by
  obtain ⟨result, told, s⟩ := run
  obtain rfl : told = before := h
  simpa using (.quiet .nil : TakesByte b told (result, told ++ [], s))

/-- What closes nothing may have been told by the same byte. -/
theorem TakesByte.behind (hfront : Quiet front)
    (h : TakesByte b (before ++ front) run) : TakesByte b before run := by
  cases h with
  | quiet h =>
      rw [List.append_assoc]
      exact .quiet (List.forall_mem_append.mpr ⟨hfront, h⟩)
  | bracket h hb hs =>
      rw [List.append_assoc, ← List.append_assoc front]
      exact .bracket (List.forall_mem_append.mpr ⟨hfront, h⟩) hb hs

end

namespace Scanner

section

variable {s : Scanner} {g : Grammar} {depth : Nat} {bytes : List UInt8}
  {b : UInt8}

/-- Where only blanks stand, nothing is told. -/
theorem StandsAt.drain_of_blanks (h : s.StandsAt g depth bytes)
    (hb : behindBlanks bytes = []) (before : List (Event × Nat)) :
    ∃ s', drain record id false s before = (.ok (), before, s') ∧
      s'.pending <:+ bytes := by
  obtain ⟨s', hidle⟩ := next_of_textBlanks h.due
    (by rw [h.pending]; exact behindBlanks_eq_nil.mp hb)
  obtain ⟨taken, hpending, -⟩ := s.next_passes false
  rw [hidle, h.pending] at hpending
  exact ⟨s', drain_of_idle hidle, taken, hpending.symm⟩

/-- Of a byte that stands alone one event is told at most. -/
theorem StandsAt.drain_single (h : s.StandsAt g depth bytes)
    (hb : behindBlanks bytes = [] ∨ behindBlanks bytes = [b])
    (before : List (Event × Nat)) :
    TakesByte b before (drain record id false s before) := by
  rcases hb with hb | hb
  · obtain ⟨s', hdrain, -⟩ := h.drain_of_blanks hb before
    exact .nothing (by rw [hdrain])
  · by_cases hread : ∃ t more, Token.read false b [] = .token t more
    · obtain ⟨t, more, hread⟩ := hread
      rcases h.drain_token hb hread before with
        ⟨-, htold⟩ | ⟨s', g', depth', hs', hdrain⟩
      · exact .nothing htold
      · rw [List.drop_nil] at hs'
        obtain ⟨u, hu, hpending⟩ :=
          hs'.drain_of_blanks rfl (before ++ g.toldOf depth t)
        rw [hdrain, hu]
        by_cases hquiet : Quiet (g.toldOf depth t)
        · exact .quiet hquiet
        · simp only [Quiet, not_forall, ← ne_eq,
            Option.ne_none_iff_exists'] at hquiet
          obtain ⟨p, hp, c, hc⟩ := hquiet
          obtain ⟨hone, ht⟩ := Grammar.toldOf_bracket hp hc
          obtain rfl := Token.read_bracket hread ht
          rw [hone]
          exact @TakesByte.bracket b before [] p u .nil hc
            (List.suffix_nil.mp hpending)
    · simp only [not_exists] at hread
      exact .nothing (h.drain_of_no_token hb hread before)

theorem behindBlanks_single (b : UInt8) :
    behindBlanks [b] = [] ∨ behindBlanks [b] = [b] := by
  unfold behindBlanks
  rw [List.dropWhile_cons]
  split
  · exact .inl rfl
  · exact .inr rfl

/-- A spent scanner tells with one more byte what it waited for, and what the
byte is itself. -/
theorem Spent.drain_byte (h : s.Spent) (b : UInt8)
    (before : List (Event × Nat)) :
    TakesByte b before (drain record id false (s.receive [b]) before) := by
  have hs : (s.receive [b]).StandsAt s.grammar s.depth (s.pending ++ [b]) :=
    ⟨rfl, rfl, rfl, h.due_eq, h.fresh_eq⟩
  cases hpending : behindBlanks s.pending with
  | nil =>
      have hbehind : behindBlanks (s.pending ++ [b]) = behindBlanks [b] := by
        rw [behindBlanks, List.dropWhile_append, ← behindBlanks, hpending]
        rfl
      refine hs.drain_single ?_ before
      rw [hbehind]
      exact behindBlanks_single b
  | cons c rest =>
      have hwaits := h.unfinished c rest hpending
      have hbehind : behindBlanks (s.pending ++ [b]) = c :: (rest ++ [b]) := by
        rw [behindBlanks_append_of_stop (by simp [hpending]), hpending,
          List.cons_append]
      by_cases hread : ∃ t more,
          Token.read false c (rest ++ [b]) = .token t more
      · obtain ⟨t, more, hread⟩ := hread
        rcases hs.drain_token hbehind hread before with
          ⟨-, htold⟩ | ⟨s', g', depth', hs', hdrain⟩
        · exact .nothing htold
        · -- What was waited for takes all that was there, and is no bracket.
          have hreach := Token.read_reach hwaits hread
          have hnone := Token.bracket_of_unfinished hwaits hread
          have hquiet : Quiet (s.grammar.toldOf s.depth t) := by
            intro p hp
            cases hb : p.1.bracket? with
            | none => rfl
            | some b =>
                have hsome := (Grammar.toldOf_bracket hp hb).2
                rw [hnone] at hsome
                cases hsome
          have hleft : behindBlanks ((rest ++ [b]).drop more) = [] ∨
              behindBlanks ((rest ++ [b]).drop more) = [b] := by
            rw [List.drop_append, List.drop_of_length_le hreach,
              List.nil_append]
            rcases Nat.eq_zero_or_pos (more - rest.length) with heq | hpos
            · rw [heq]
              exact behindBlanks_single b
            · rw [List.drop_of_length_le hpos]
              exact .inl rfl
          rw [hdrain]
          exact .behind hquiet (hs'.drain_single hleft _)
      · simp only [not_exists] at hread
        exact .nothing (hs.drain_of_no_token hbehind hread before)

end

theorem feed_concat {bytes : List UInt8} (h : 3 ≤ bytes.length) (b : UInt8) :
    TakesByte b (told bytes)
      (Scanner.start.feed record id (bytes ++ [b]) []) := by
  have hreceive := Scanner.start.receive_receive bytes [b]
  have hstart : (Scanner.start.receive bytes).unended := by
    simp [unended, receive, start]
  unfold told
  rw [feed_eq, feed_eq, ← hreceive]
  rcases hfeed : drain record id false (Scanner.start.receive bytes) [] with
    ⟨fault | ⟨⟩, before, s⟩
  · rw [drain_receive_of_error hfeed]
    exact .nothing rfl
  · rw [drain_receive hstart hfeed]
    rcases feed_start_cases hfeed with ⟨hshort, -, -⟩ | hspent
    · omega
    · exact hspent.drain_byte b before

/-! ## The beginning -/

theorem Nests.run {s : Scanner} {before : List (Event × Nat)}
    (h : s.Nests before) (ending : Bool) :
    (drain record id ending s before).2.2.Nests
      (drain record id ending s before).2.1 := by
  have hnext {s s' : Scanner} {before : List (Event × Nat)} {step : Step}
      (h : s.Nests before) (hstep : s.next ending = (step, s')) :
      s'.Nests (before ++ step.told) := by
    have hnests := h.next ending
    rwa [hstep] at hnests
  fun_induction drain record id ending s before with
  | case1 s before t hstep =>
      have hnests := hnext h hstep
      rwa [Step.told, List.append_nil] at hnests
  | case2 s before fault t hstep =>
      have hnests := hnext h hstep
      rwa [Step.told, List.append_nil] at hnests
  | case3 s before t hstep ih =>
      have hnests := hnext h hstep
      rw [Step.told, List.append_nil] at hnests
      exact ih hnests
  | case4 s before e depth t hstep before' hlisten ih =>
      obtain rfl : before ++ [(e, depth)] = before' := congrArg Prod.snd hlisten
      exact ih (hnext h hstep)
  | case5 s before e depth t hstep error before' hlisten =>
      exact absurd (congrArg Prod.fst hlisten) (by simp [record])

/-- Before anything was opened a key would have no container around it. -/
theorem depth_of_told_key {bytes : List UInt8} {name : String} {depth : Nat}
    {rest : List (Event × Nat)} (h : told bytes = (.key name, depth) :: rest) :
    depth = 0 := by
  have hstart : (Scanner.start.receive bytes).Nests [] :=
    ⟨start_nests.nested, start_nests.height_le⟩
  have hnests := (hstart.run false).nested
  exact (hnests.placed [] _ rest h).depth_eq

theorem length_told (bytes : List UInt8) :
    (told bytes).length ≤ bytes.length := by
  have hlength := length_drain false (Scanner.start.receive bytes) []
  have hload : (Scanner.start.receive bytes).load = bytes.length := rfl
  rw [hload, List.length_nil, Nat.zero_add] at hlength
  exact hlength

end Scanner

/-! ## Sub-trees -/

section

variable {wanted : String → Nat → Bool}

theorem Selector.run_append (s : Selector) (told more : List (Event × Nat)) :
    s.run wanted (told ++ more)
      = (((s.run wanted told).1.run wanted more).1,
        (s.run wanted told).2 ++ ((s.run wanted told).1.run wanted more).2) := by
  induction told generalizing s with
  | nil => rfl
  | cons first told ih =>
      obtain ⟨e, depth⟩ := first
      rcases haccept : s.accept wanted e depth with ⟨s', found⟩
      rw [List.cons_append, run_cons haccept, run_cons haccept, ih s',
        List.append_assoc]

/-- A sub-tree is completed by an event that closes it. -/
theorem Selector.accept_quiet (s : Selector) {e : Event} {depth : Nat}
    (h : e.bracket? = none) : (s.accept wanted e depth).2 = none := by
  cases s with
  | watching armed => exact accept_watching armed
  | capturing c => cases e <;> first | rfl | cases h

theorem Selector.run_quiet (s : Selector) {told : List (Event × Nat)}
    (h : Quiet told) : (s.run wanted told).2 = [] := by
  induction told generalizing s with
  | nil => rfl
  | cons first told ih =>
      obtain ⟨e, depth⟩ := first
      obtain ⟨hfirst, htold⟩ := List.forall_mem_cons.mp h
      have hnone : (s.accept wanted e depth).2 = none := s.accept_quiet hfirst
      rcases haccept : s.accept wanted e depth with ⟨s', found⟩
      rw [haccept] at hnone
      obtain rfl : found = none := hnone
      rw [run_cons haccept, ih s' htold]
      rfl

/-- Three bytes complete no sub-tree under a key inside a container. -/
theorem Selector.run_told_of_short (hwanted : ∀ name, wanted name 0 = false)
    {bytes : List UInt8} (h : bytes.length ≤ 3) :
    (start.run wanted (Scanner.told bytes)).2 = [] := by
  have hlength := Scanner.length_told bytes
  match htold : Scanner.told bytes with
  | [] => rfl
  | (e, depth) :: rest =>
      have hfirst : start.accept wanted e depth = (start, none) := by
        cases e with
        | key name =>
            obtain rfl := Scanner.depth_of_told_key htold
            show (watching (if wanted name 0 then _ else _), none) = _
            rw [hwanted]
            rfl
        | _ => rfl
      rw [htold, List.length_cons] at hlength
      rw [run_cons hfirst, run_short (by omega)]
      rfl

/-- Behind some bytes, `b` is the closing bracket of a sub-tree. With `b` all
bytes are taken, the last that is told of them is that the container is closed,
and by this event the sub-tree is complete. -/
inductive Selector.Completes (wanted : String → Nat → Bool)
    (bytes : List UInt8) (b : UInt8) (found : Selected) : Prop
  | closing {front : List (Event × Nat)} {p : Event × Nat} {s : Scanner}
      (hfeed : Scanner.start.feed Scanner.record id (bytes ++ [b]) []
        = (.ok (), front ++ [p], s))
      (htaken : s.pending = [])
      (hbracket : p.1.bracket? = some b)
      (hbefore : (start.run wanted front).2
        = (start.run wanted (Scanner.told bytes)).2)
      (hbehind : (start.run wanted (front ++ [p])).2
        = (start.run wanted (Scanner.told bytes)).2 ++ [found])

/-- With one more byte of a text there is no sub-tree more, unless the byte is
the closing bracket of one. -/
theorem Selector.run_told_concat (hwanted : ∀ name, wanted name 0 = false)
    (bytes : List UInt8) (b : UInt8) :
    (start.run wanted (Scanner.told (bytes ++ [b]))).2
        = (start.run wanted (Scanner.told bytes)).2 ∨
      ∃ found, Completes wanted bytes b found := by
  by_cases hshort : bytes.length < 3
  · left
    rw [run_told_of_short hwanted (Nat.le_of_lt hshort),
      run_told_of_short hwanted (by rw [List.length_append]; exact hshort)]
  · have htakes := Scanner.feed_concat (Nat.le_of_not_lt hshort) b
    rcases hfeed : Scanner.start.feed Scanner.record id (bytes ++ [b]) [] with
      ⟨result, told, s⟩
    have htold : Scanner.told (bytes ++ [b]) = told := by
      rw [Scanner.told, hfeed]
    rw [hfeed] at htakes
    rw [htold]
    generalize hbefore : Scanner.told bytes = before at htakes
    cases htakes with
    | quiet h =>
        left
        rw [run_append, run_quiet _ h, List.append_nil]
    | @bracket front p _ h hb hs =>
        have hquiet : (start.run wanted (before ++ front)).2
            = (start.run wanted before).2 := by
          rw [run_append, run_quiet _ h, List.append_nil]
        obtain ⟨e, depth⟩ := p
        rcases haccept : (start.run wanted (before ++ front)).1.accept wanted e
          depth with ⟨s', _ | found⟩
        · left
          rw [← List.append_assoc, run_append, hquiet, run_cons haccept]
          exact List.append_nil _
        · right
          rw [← List.append_assoc] at hfeed
          refine ⟨found, .closing hfeed hs hb (by rw [hquiet, hbefore]) ?_⟩
          rw [run_append, hquiet, run_cons haccept, hbefore]
          rfl

end

end Ridership.Json

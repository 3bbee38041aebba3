import Mathlib.Data.List.Chain
import Mathlib.Data.List.Induction
import Ridership.Proofs.LineSplitting

/-!
# How often progress is told

Two loops go through reads and tell progress, and they have the rule in common:
where a read ends, the place is told if it is a step or more away from the last
one that was. A read may pass several steps at once, so the places told need not
lie near multiples of the step. What holds of them is stated here for the rule
alone (`Paced`), and follows read by read (`Paced.concat`).

The first of the loops is the splitter. It stops between any two events, and the
reads that it passes over in between have to be brought to light first: a run is
taken apart into lines, reads that are due and reads that are not
(`Splitter.Runs`). The places it tells are then those of the rule, and as it
tells a read when it has looked at none of its bytes, the lines in front of the
read are behind it, and those in it are yet to come.
-/

namespace Ridership.Storage

/-! ## Pieces and where they end -/

/-- The pieces that reads bring before anything goes wrong. -/
def piecesOf : List Read → List (List UInt8)
  | [] => []
  | .bytes piece :: reads => piece :: piecesOf reads
  | .fault _ :: _ => []

/-- Where pieces end that follow one another from a place on. -/
def endsOf (place : Nat) : List (List UInt8) → List Nat
  | [] => []
  | piece :: rest =>
      (place + piece.length) :: endsOf (place + piece.length) rest

theorem flatten_piecesOf (reads : List Read) :
    (piecesOf reads).flatten = bytesOf reads := by
  induction reads with
  | nil => rfl
  | cons read reads ih =>
      cases read with
      | bytes piece => rw [piecesOf, List.flatten_cons, ih, bytesOf]
      | fault f => rfl

theorem endsOf_concat (place : Nat) (pieces : List (List UInt8))
    (piece : List UInt8) :
    endsOf place (pieces ++ [piece])
      = endsOf place pieces
        ++ [place + (pieces.flatten.length + piece.length)] := by
  induction pieces generalizing place with
  | nil => simp [endsOf]
  | cons first pieces ih =>
      rw [List.cons_append, endsOf, ih, endsOf, List.cons_append,
        List.flatten_cons, List.length_append, Nat.add_assoc, Nat.add_assoc]

theorem lt_of_mem_endsOf {place : Nat} {pieces : List (List UInt8)}
    (hfull : ∀ piece ∈ pieces, piece ≠ []) :
    ∀ stop ∈ endsOf place pieces, place < stop := by
  induction pieces generalizing place with
  | nil => simp [endsOf]
  | cons piece pieces ih =>
      obtain ⟨hpiece, hfull⟩ := List.forall_mem_cons.mp hfull
      have hlength := List.length_pos_of_ne_nil hpiece
      refine List.forall_mem_cons.mpr ⟨by omega, fun stop hstop => ?_⟩
      have hrest := ih hfull stop hstop
      omega

theorem endsOf_ascending {place : Nat} {pieces : List (List UInt8)}
    (hfull : ∀ piece ∈ pieces, piece ≠ []) :
    (endsOf place pieces).Pairwise (· < ·) := by
  induction pieces generalizing place with
  | nil => exact .nil
  | cons piece pieces ih =>
      have hrest := (List.forall_mem_cons.mp hfull).2
      exact .cons (lt_of_mem_endsOf hrest) (ih hrest)

end Ridership.Storage

namespace Ridership

/-! ## The rule -/

/-- What has been told when a place is reached: the place as well, if it is a
step away from the last that was told, or from the beginning. -/
def tellEnd (step : Nat) (told : List Nat) (place : Nat) : List Nat :=
  if step ≤ place - told.getLastD 0 then told ++ [place] else told

/-- What is told of places that are reached one after another. -/
def toldOf (step : Nat) (ends : List Nat) : List Nat :=
  ends.foldl (tellEnd step) []

/-- Places told of those that were reached, a step apart and no
later than that. -/
structure Paced (step : Nat) (ends told : List Nat) : Prop where
  ascending : told.Pairwise (· < ·)
  at_ends : told.Sublist ends
  apart : (0 :: told).IsChain fun a b => a + step ≤ b
  /-- A place that is not told is less than a step behind the last one told
  before it. -/
  due : ∀ place ∈ ends, place ∈ told ∨
    place < (told.filter (· < place)).getLastD 0 + step
  all_of_zero : step = 0 → told = ends

section

variable {step place : Nat} {ends told : List Nat}

theorem getLastD_zero_le (h : ∀ e ∈ told, e < place) :
    told.getLastD 0 ≤ place := by
  rcases List.eq_nil_or_concat told with rfl | ⟨before, last, rfl⟩
  · exact Nat.zero_le place
  · rw [List.concat_eq_append] at h ⊢
    rw [List.getLastD_concat]
    exact Nat.le_of_lt (h last (by simp))

theorem Paced.concat (h : Paced step ends told) (hlt : ∀ e ∈ ends, e < place) :
    Paced step (ends ++ [place]) (tellEnd step told place) := by
  have hbelow : ∀ e ∈ told, e < place := fun e he => hlt e (h.at_ends.subset he)
  -- Places reached before do not see the new one.
  have hdue : ∀ e ∈ ends, e ∈ told ∨
      e < ((told ++ [place]).filter (· < e)).getLastD 0 + step := by
    intro e he
    have hnot : ¬ place < e := Nat.lt_asymm (hlt e he)
    rw [List.filter_append, List.filter_cons_of_neg (by simpa using hnot),
      List.filter_nil, List.append_nil]
    exact h.due e he
  unfold tellEnd
  split
  · next hstep =>
      have hlast := getLastD_zero_le hbelow
      refine ⟨?_, h.at_ends.append_right [place], ?_, ?_, ?_⟩
      · rw [List.pairwise_append]
        exact ⟨h.ascending, List.pairwise_singleton _ _, by simpa using hbelow⟩
      · rw [← List.cons_append, List.isChain_append]
        refine ⟨h.apart, List.isChain_singleton _, ?_⟩
        intro a ha b hb
        rw [List.getLast?_cons] at ha
        obtain rfl : told.getLastD 0 = a := by
          simpa [List.getLastD_eq_getLast?] using ha
        obtain rfl : place = b := by simpa using hb
        omega
      · intro e he
        rcases List.mem_append.mp he with hold | hnew
        · rcases hdue e hold with hmem | hlate
          · exact .inl (List.mem_append_left _ hmem)
          · exact .inr hlate
        · exact .inl (List.mem_append_right _ hnew)
      · intro hzero
        rw [h.all_of_zero hzero]
  · next hstep =>
      refine ⟨h.ascending, h.at_ends.trans (List.sublist_append_left _ _),
        h.apart, ?_, fun hzero => absurd (Nat.zero_le _) (hzero ▸ hstep)⟩
      intro e he
      rcases List.mem_append.mp he with hold | hnew
      · exact h.due e hold
      · obtain rfl : e = place := List.mem_singleton.mp hnew
        have hall : told.filter (· < e) = told := by
          rw [List.filter_eq_self]
          intro a ha
          simpa using hbelow a ha
        right
        rw [hall]
        omega

/-- What is told of ascending places is paced. -/
theorem toldOf_paced (h : ends.Pairwise (· < ·)) :
    Paced step ends (toldOf step ends) := by
  induction ends using List.reverseRecOn with
  | nil =>
      exact ⟨.nil, .slnil, List.isChain_singleton 0,
        List.forall_mem_nil _, fun _ => rfl⟩
  | append_singleton ends place ih =>
      rw [List.pairwise_append] at h
      obtain ⟨hends, -, hlt⟩ := h
      rw [toldOf, List.foldl_concat]
      exact (ih hends).concat fun e he =>
        hlt e he place (List.mem_singleton.mpr rfl)

end

end Ridership

namespace Ridership.Log

open Storage (Read endsOf piecesOf)

/-! ## What a run of a splitter is made of -/

/-- The place that an event tells progress of. -/
def SplitEvent.place? : SplitEvent → Option Nat
  | .progress offset _ => some offset
  | .line _ => none

/-- The pieces that a splitter has yet to read. -/
def Splitter.pieces (s : Splitter) : List (List UInt8) :=
  piecesOf (s.reads.getD [])

/-- A splitter that has read up to a place where looking for a line end leaves
it, whatever it finds. -/
structure Splitter.ReadsAlike (s s' : Splitter) : Prop where
  reads_eq : s'.reads = s.reads
  offset_eq : s'.offset = s.offset
  size_eq : s'.size = s.size
  step_eq : s'.progressStep = s.progressStep
  last_eq : s'.lastProgress = s.lastProgress
  place_le : s.place ≤ s'.place
  end_eq : s'.place + s'.unread.length = s.place + s.unread.length

/-- A splitter that takes in a read and has told it. -/
def Splitter.tellRead (s : Splitter) (piece : List UInt8) (reads : List Read) :
    Splitter :=
  { s.fill piece reads with lastProgress := s.offset + piece.length }

/-- A run, taken apart into lines and reads. -/
inductive Splitter.Runs : Splitter → List SplitEvent → Prop
  | line {s s' : Splitter} {raw : RawLine} {events : List SplitEvent}
      (hline : s.takeLine = (some raw, s')) (hrest : s'.Runs events) :
      s.Runs (.line raw :: events)
  /-- A read that is due is told before anything in it. -/
  | due {s s' : Splitter} {piece : List UInt8} {reads : List Read}
      {events : List SplitEvent}
      (hline : s.takeLine = (none, s'))
      (hreads : s'.reads = some (.bytes piece :: reads))
      (hdue : s'.progressStep ≤ s'.offset + piece.length - s'.lastProgress)
      (hrest : (s'.tellRead piece reads).Runs events) :
      s.Runs (.progress (s'.offset + piece.length) s'.size :: events)
  | early {s s' : Splitter} {piece : List UInt8} {reads : List Read}
      {events : List SplitEvent}
      (hline : s.takeLine = (none, s'))
      (hreads : s'.reads = some (.bytes piece :: reads))
      (hearly :
        ¬ s'.progressStep ≤ s'.offset + piece.length - s'.lastProgress)
      (hrest : (s'.fill piece reads).Runs events) : s.Runs events
  /-- Behind the last read there may be a tail. -/
  | spent {s s' : Splitter} {events : List SplitEvent}
      (hline : s.takeLine = (none, s')) (hreads : s'.pieces = [])
      (htail : ∀ e ∈ events, ∃ raw, e = .line raw ∧
        raw.line.stop = s'.offset) : s.Runs events

section

variable {s s' : Splitter}

theorem Splitter.takeLine_alike (s : Splitter) :
    s.ReadsAlike s.takeLine.2 := by
  rcases segments_cases s.unread with hplain | ⟨before, after, hplain, hunread⟩
  · rw [takeLine_of_plain hplain]
    exact ⟨rfl, rfl, rfl, rfl, rfl, Nat.le_add_right _ _, rfl⟩
  · rw [takeLine_of_line hunread hplain]
    refine ⟨rfl, rfl, rfl, rfl, rfl, ?_, ?_⟩
    · show s.place ≤ s.place + before.length + 1
      omega
    · show s.place + before.length + 1 + after.length = _
      rw [hunread, List.length_append, List.length_cons]
      omega

theorem Splitter.takeLine_stop {raw : RawLine}
    (h : s.takeLine = (some raw, s')) :
    s.place ≤ raw.line.stop ∧ raw.line.stop < s'.place := by
  rcases segments_cases s.unread with hplain | ⟨before, after, hplain, hunread⟩
  · rw [takeLine_of_plain hplain] at h
    cases h
  · rw [takeLine_of_line hunread hplain] at h
    cases h
    exact ⟨Nat.le_add_right _ _, Nat.lt_succ_self _⟩

theorem Splitter.run_congr (h : s.next = s'.next) : s.run = s'.run := by
  rcases hnext : s'.next with ⟨error | _ | e, t⟩
  · exact (runBehind_of_fail (h.trans hnext) []).trans
      (runBehind_of_fail hnext []).symm
  · exact (runBehind_of_stop (h.trans hnext) []).trans
      (runBehind_of_stop hnext []).symm
  · rw [run_of_event (h.trans hnext), run_of_event hnext]

theorem Splitter.next_of_none (h : s.takeLine = (none, s')) :
    s.next = match s'.reads with
      | none => (.ok none, s')
      | some reads => s'.advance reads := by
  cases hreads : s'.reads <;> simp [next, h, hreads]

section

variable {piece : List UInt8} {reads : List Read}

theorem Splitter.advance_of_due
    (h : s.progressStep ≤ s.offset + piece.length - s.lastProgress) :
    s.advance (.bytes piece :: reads)
      = (.ok (some (.progress (s.offset + piece.length) s.size)),
        s.tellRead piece reads) := by
  rw [advance]
  exact if_pos h

/-- A read that is not due is passed over. -/
theorem Splitter.advance_of_early
    (h : ¬ s.progressStep ≤ s.offset + piece.length - s.lastProgress) :
    s.advance (.bytes piece :: reads) = (s.fill piece reads).next := by
  rw [advance]
  refine (if_neg h).trans ?_
  rw [next]
  split
  · rfl
  · next t ht =>
      rw [(takeLine_of_none ht).2]
      rfl

theorem Splitter.fill_load (hline : s.takeLine = (none, s'))
    (hreads : s'.reads = some (.bytes piece :: reads)) :
    (s'.fill piece reads).load < s.load := by
  have hbefore : s.load
      = s.unread.length + (1 + (piece.length + 1 + readsLoad reads)) := by
    simp only [load, ← (takeLine_of_none hline).2, hreads, readsLoad]
  have hafter : (s'.fill piece reads).load
      = piece.length + (1 + readsLoad reads) := rfl
  omega

end

/-- Every run can be taken apart. -/
theorem Splitter.runs (s : Splitter) : s.Runs s.run.1 := by
  rcases hline : s.takeLine with ⟨_ | raw, s'⟩
  · have hunread := (takeLine_of_none hline).1
    have hnext := next_of_none hline
    rcases hreads : s'.reads with _ | _ | ⟨piece | f, reads⟩
    · rw [hreads] at hnext
      rw [run, runBehind_of_stop hnext]
      exact .spent hline (by rw [pieces, hreads]; rfl) (by simp)
    · have hspent : s'.pieces = [] := by rw [pieces, hreads]; rfl
      rw [hreads] at hnext
      dsimp only at hnext
      rw [advance] at hnext
      dsimp only at hnext
      split at hnext
      · -- The tail is the last that is told.
        have hexhausted : (({ s' with reads := none } : Splitter).endLine
            s'.offset).2.Exhausted := ⟨rfl, hunread⟩
        rw [run_of_event hnext, hexhausted.run]
        exact .spent hline hspent (by simp [endLine, Line.between])
      · rw [run, runBehind_of_stop hnext]
        exact .spent hline hspent (by simp)
    · by_cases hdue :
          s'.progressStep ≤ s'.offset + piece.length - s'.lastProgress
      · rw [hreads] at hnext
        rw [run_of_event (hnext.trans (advance_of_due hdue))]
        exact .due hline hreads hdue (s'.tellRead piece reads).runs
      · rw [hreads] at hnext
        rw [run_congr (hnext.trans (advance_of_early hdue))]
        exact .early hline hreads hdue (s'.fill piece reads).runs
    · rw [hreads] at hnext
      rw [run, runBehind_of_fail hnext]
      exact .spent hline (by rw [pieces, hreads]; rfl) (by simp)
  · have hnext : s.next = (.ok (some (.line raw)), s') := by rw [next, hline]
    rw [run_of_event hnext]
    exact .line hline s'.runs
termination_by s.load
decreasing_by
  · exact fill_load hline hreads
  · exact fill_load hline hreads
  · exact takeLine_load hline

end

/-! ## What is told in a run -/

/-- A splitter whose unread bytes end where it has read to. -/
def Splitter.Aligned (s : Splitter) : Prop :=
  s.offset = s.place + s.unread.length

section

variable {s s' : Splitter} {events : List SplitEvent}

theorem Splitter.ReadsAlike.aligned (h : s.ReadsAlike s') (ha : s.Aligned) :
    s'.Aligned := by
  rw [Aligned, h.offset_eq, h.end_eq, ha]

theorem Splitter.Aligned.place_le (ha : s.Aligned) : s.place ≤ s.offset :=
  ha ▸ Nat.le_add_right _ _

theorem Splitter.ReadsAlike.pieces_eq (h : s.ReadsAlike s') :
    s'.pieces = s.pieces := by
  rw [pieces, pieces, h.reads_eq]

theorem Splitter.alike_of_takeLine {found : Option RawLine}
    (h : s.takeLine = (found, s')) : s.ReadsAlike s' := by
  have halike := s.takeLine_alike
  rwa [h] at halike

theorem Splitter.pieces_of_read {piece : List UInt8} {reads : List Read}
    (h : s.reads = some (.bytes piece :: reads)) :
    s.pieces = piece :: (s.fill piece reads).pieces := by
  rw [pieces, h]
  rfl

/-- A run tells the places that the rule asks for. -/
theorem Splitter.Runs.places (h : s.Runs events) {told : List Nat}
    (hlast : told.getLastD 0 = s.lastProgress) :
    told ++ events.filterMap SplitEvent.place?
      = (endsOf s.offset s.pieces).foldl (tellEnd s.progressStep) told := by
  induction h generalizing told with
  | line hline hrest ih =>
      have halike := alike_of_takeLine hline
      rw [List.filterMap_cons_none rfl, ih (hlast.trans halike.last_eq.symm),
        halike.offset_eq, halike.pieces_eq, halike.step_eq]
  | @due s s' piece reads events hline hreads hdue hrest ih =>
      have halike := alike_of_takeLine hline
      have htell : tellEnd s'.progressStep told (s'.offset + piece.length)
          = told ++ [s'.offset + piece.length] := by
        rw [tellEnd, hlast, ← halike.last_eq, if_pos hdue]
      have hmore := @ih (told ++ [s'.offset + piece.length])
        List.getLastD_concat
      rw [← halike.offset_eq, ← halike.pieces_eq, ← halike.step_eq,
        pieces_of_read hreads, endsOf, List.foldl_cons, htell]
      exact (List.append_cons ..).trans hmore
  | @early s s' piece reads events hline hreads hearly hrest ih =>
      have halike := alike_of_takeLine hline
      have hkept : told.getLastD 0 = s'.lastProgress :=
        hlast.trans halike.last_eq.symm
      have htell : tellEnd s'.progressStep told (s'.offset + piece.length)
          = told := by
        rw [tellEnd, hkept, if_neg hearly]
      rw [← halike.offset_eq, ← halike.pieces_eq, ← halike.step_eq,
        pieces_of_read hreads, endsOf, List.foldl_cons, htell]
      exact ih hkept
  | @spent s s' events hline hspent htail =>
      have hnone : events.filterMap SplitEvent.place? = [] := by
        rw [List.filterMap_eq_nil_iff]
        intro e he
        obtain ⟨raw, rfl, -⟩ := htail e he
        rfl
      rw [hnone, ← (alike_of_takeLine hline).pieces_eq, hspent, List.append_nil]
      rfl

/-- The lines of a run end where the splitter stands, or behind. -/
theorem Splitter.Runs.place_le (h : s.Runs events) (ha : s.Aligned) :
    ∀ raw, .line raw ∈ events → s.place ≤ raw.line.stop := by
  induction h with
  | line hline hrest ih =>
      have halike := alike_of_takeLine hline
      intro raw hraw
      rcases List.mem_cons.mp hraw with hfirst | hraw
      · cases hfirst
        exact (takeLine_stop hline).1
      · exact Nat.le_trans halike.place_le (ih (halike.aligned ha) raw hraw)
  | @due s s' piece reads events hline hreads hdue hrest ih =>
      have halike := alike_of_takeLine hline
      have hplace := (halike.aligned ha).place_le
      intro raw hraw
      have hraw := (List.mem_cons.mp hraw).resolve_left (by simp)
      have hstop : s'.offset ≤ raw.line.stop := ih rfl raw hraw
      exact (halike.place_le.trans hplace).trans hstop
  | @early s s' piece reads events hline hreads hearly hrest ih =>
      have halike := alike_of_takeLine hline
      have hplace := (halike.aligned ha).place_le
      intro raw hraw
      have hstop : s'.offset ≤ raw.line.stop := ih rfl raw hraw
      exact (halike.place_le.trans hplace).trans hstop
  | spent hline hspent htail =>
      have halike := alike_of_takeLine hline
      have hplace := (halike.aligned ha).place_le
      intro raw hraw
      obtain ⟨_, hsame, hstop⟩ := htail _ hraw
      cases hsame
      exact (halike.place_le.trans hplace).trans (Nat.le_of_eq hstop.symm)

/-- Where a run tells a read: the read ends there, the lines in front of it
have been told, and those that end in it, or behind, are yet to be told. -/
structure Splitter.TellsRead (s : Splitter) (before after : List SplitEvent)
    (place size : Nat) : Prop where
  size_eq : size = s.size
  split : ∃ taken piece rest, s.pieces = taken ++ piece :: rest ∧
    place = s.offset + taken.flatten.length + piece.length ∧
    (∀ raw, .line raw ∈ before →
      raw.line.stop < s.offset + taken.flatten.length) ∧
    ∀ raw, .line raw ∈ after →
      s.offset + taken.flatten.length ≤ raw.line.stop

/-- What a read tells from behind a piece, it tells from in front of it. -/
theorem Splitter.TellsRead.of_fill {before after : List SplitEvent}
    {place size : Nat} {piece : List UInt8} {reads : List Read}
    (h : (s.fill piece reads).TellsRead before after place size)
    (hreads : s.reads = some (.bytes piece :: reads)) :
    s.TellsRead before after place size := by
  obtain ⟨hsize, taken, last, rest, hpieces, hplace, hbefore, hafter⟩ := h
  have hoffset : s.offset + (piece :: taken).flatten.length
      = (s.fill piece reads).offset + taken.flatten.length := by
    rw [List.flatten_cons, List.length_append, ← Nat.add_assoc]
    rfl
  refine ⟨hsize, piece :: taken, last, rest, ?_, ?_, ?_, ?_⟩
  · rw [pieces_of_read hreads, hpieces, List.cons_append]
  · rw [hoffset, hplace]
  · rwa [hoffset]
  · rwa [hoffset]

theorem Splitter.TellsRead.of_alike {before after : List SplitEvent}
    {place size : Nat} (h : s'.TellsRead before after place size)
    (halike : s.ReadsAlike s') : s.TellsRead before after place size := by
  obtain ⟨hsize, hsplit⟩ := h
  rw [halike.pieces_eq, halike.offset_eq] at hsplit
  exact ⟨hsize.trans halike.size_eq, hsplit⟩

/-- What is told before anything that is yet to be read, stays in front. -/
theorem Splitter.TellsRead.cons {before after : List SplitEvent}
    {place size : Nat} (h : s.TellsRead before after place size)
    {e : SplitEvent} (he : ∀ raw, e = .line raw → raw.line.stop < s.offset) :
    s.TellsRead (e :: before) after place size := by
  obtain ⟨hsize, taken, piece, rest, hpieces, hplace, hbefore, hafter⟩ := h
  refine ⟨hsize, taken, piece, rest, hpieces, hplace, ?_, hafter⟩
  intro raw hraw
  rcases List.mem_cons.mp hraw with hfirst | hraw
  · have hstop := he raw hfirst.symm
    omega
  · exact hbefore raw hraw

theorem Splitter.Runs.tellsRead (h : s.Runs events) (ha : s.Aligned)
    {before after : List SplitEvent} {place size : Nat}
    (hsplit : events = before ++ .progress place size :: after) :
    s.TellsRead before after place size := by
  induction h generalizing before with
  | @line s s' raw events hline hrest ih =>
      have halike := alike_of_takeLine hline
      have ha' := halike.aligned ha
      cases before with
      | nil => cases hsplit
      | cons first before =>
          obtain ⟨rfl, hrests⟩ := List.cons.inj hsplit
          refine ((ih ha' hrests).of_alike halike).cons fun _ hsame => ?_
          cases hsame
          have hstop := (takeLine_stop hline).2
          have hplace := ha'.place_le
          rw [halike.offset_eq] at hplace
          omega
  | @due s s' piece reads events hline hreads hdue hrest ih =>
      have halike := alike_of_takeLine hline
      refine TellsRead.of_alike ?_ halike
      cases before with
      | nil =>
          obtain ⟨hfirst, rfl⟩ := List.cons.inj hsplit
          cases hfirst
          refine ⟨rfl, [], piece, _, pieces_of_read hreads, rfl, by simp, ?_⟩
          exact hrest.place_le rfl
      | cons first before =>
          obtain ⟨rfl, hrests⟩ := List.cons.inj hsplit
          have htold := ih rfl hrests
          have hfill : (s'.fill piece reads).TellsRead before after place size :=
            ⟨htold.size_eq, htold.split⟩
          exact (hfill.of_fill hreads).cons fun _ hsame => by cases hsame
  | early hline hreads hearly hrest ih =>
      have halike := alike_of_takeLine hline
      exact ((ih rfl hsplit).of_fill hreads).of_alike halike
  | spent hline hspent htail =>
      obtain ⟨raw, hraw, -⟩ := htail (.progress place size) (by simp [hsplit])
      cases hraw

end

end Ridership.Log

import Ridership.Proofs.Arrivals
import Ridership.Proofs.BodyReads

/-!
# Progress as it is told

Both loops go by one rule, so what is known of the rule is known of them: the
places told ascend, they are ends of reads, a step apart, and no end goes untold
that is a step behind the last one told. What sets the loops apart is when they
tell a read. A splitter tells it before it looks at its bytes, a body when all
of them are taken.

That no place lies beyond the total that is told with it has nothing to do with
the loops. It is the source that brings no more than it was asked for: of a file
never more than the size it had when it was opened, whatever was done to it
since, and of a range never more than its length.
-/

namespace Ridership

open Forecast (BodyState ForecastError Outcome Report TellsPiece
  append_eq_split readLine)
open Log (Line Progress SplitEvent Splitter indexLines)
open Storage (Breakage ByteSource Delivery Fault FileSource Lookup LogSource
  Node Read endsOf endsOf_ascending faultOf flatten_piecesOf piecesOf
  placeLimit)

/-! ## The two loops -/

theorem Log.Splitter.run_paced {reads : List Read}
    (hfull : ∀ piece ∈ piecesOf reads, piece ≠ []) (size : Nat)
    (settings : Settings) :
    Paced settings.fileProgressStep (endsOf 0 (piecesOf reads))
      ((Splitter.start reads size settings).run.1.filterMap
        SplitEvent.place?) := by
  have hplaces : [] ++ _ = _ :=
    (Splitter.start reads size settings).runs.places rfl
  rw [List.nil_append] at hplaces
  rw [hplaces]
  exact toldOf_paced (endsOf_ascending hfull)

/-- The end of a reading tells no progress. -/
theorem Forecast.BodyState.Ends.reports {b : BodyState}
    {rest : List (List UInt8)} {fault : Option Fault}
    {read : Except ForecastError Unit × BodyState}
    (h : b.Ends rest fault read) :
    ∃ more : List Report, (∀ report ∈ more, report.place? = none) ∧
      read.2.line.reports.reverse = b.line.reports.reverse ++ more := by
  have houtcomes (outcomes : List Outcome) :
      ∀ report ∈ (outcomes.map Report.outcome).reverse,
        report.place? = none := by
    intro report hreport
    obtain ⟨o, -, rfl⟩ := List.mem_map.mp (List.mem_reverse.mp hreport)
    rfl
  cases h with
  | @complete b' h =>
      obtain ⟨outcomes, hreports⟩ := BodyState.finish_outcomes h
      refine ⟨(outcomes.map Report.outcome).reverse ++ [.done], ?_, ?_⟩
      · intro report hreport
        rcases List.mem_append.mp hreport with hreport | hreport
        · exact houtcomes outcomes report hreport
        · obtain rfl := List.mem_singleton.mp hreport
          rfl
      · show (Report.done :: b'.line.reports).reverse = _
        rw [hreports, List.reverse_cons, List.reverse_append,
          List.append_assoc]
  | incomplete h =>
      obtain ⟨outcomes, hreports⟩ := BodyState.finish_outcomes h
      exact ⟨_, houtcomes outcomes, by rw [hreports, List.reverse_append]⟩
  | fault => exact ⟨[], List.forall_mem_nil _, (List.append_nil _).symm⟩
  | refused h =>
      obtain ⟨outcomes, hreports⟩ := BodyState.feed_outcomes h
      exact ⟨_, houtcomes outcomes, by rw [hreports, List.reverse_append]⟩

/-- A reading takes pieces, and tells its progress of them. -/
theorem Forecast.BodyState.readAll_tells (size step : Nat)
    (reads : List Read) :
    let read := BodyState.start.readAll size step reads
    ∃ taken rest b, piecesOf reads = taken ++ rest ∧
      Took size step taken b ∧ b.Ends rest (faultOf reads) read ∧
      read.2.line.reports.reverse.filterMap Report.place?
        = toldOf step (endsOf 0 taken) ∧
      ∀ before place total after,
        read.2.line.reports.reverse
            = before ++ .progress place total :: after →
          TellsPiece size taken before place total := by
  obtain ⟨taken, rest, b, hpieces, htook, hends⟩ :=
    readAll_ends (.start : Took size step [] .start) reads
  obtain ⟨more, hmore, hreports⟩ := hends.reports
  refine ⟨taken, rest, b, hpieces, htook, hends, ?_, ?_⟩
  · have hnone : more.filterMap Report.place? = [] :=
      List.filterMap_eq_nil_iff.mpr hmore
    rw [hreports, List.filterMap_append, hnone, List.append_nil]
    exact htook.places.1
  · intro before place total after hsplit
    rw [hreports] at hsplit
    rcases append_eq_split hsplit with
      ⟨rest, hbefore⟩ | ⟨front, -, hback⟩
    · exact htook.tellsPiece hbefore
    · have hnone := hmore (.progress place total) (by simp [hback])
      cases hnone

/-! ## Totals -/

/-- The progress among the reports of a line. -/
def progressOf (reports : List Report) : List Progress :=
  reports.filterMap fun
    | .progress consumed total => some ⟨consumed, total⟩
    | _ => none

/-- Progress of so much, and no place beyond it. -/
def Within (total : Nat) (told : List Progress) : Prop :=
  ∀ p ∈ told, p.done ≤ p.total ∧ p.total = total

/-- A source that brings no more than it was asked for. -/
structure Storage.ByteSource.Bounded (source : ByteSource) : Prop where
  stream_le : ∀ d, source.stream = .ok d → d.bytes.length ≤ source.size
  slice_le : ∀ start stop d, source.slice start stop = .ok d →
    d.bytes.length ≤ stop - start

theorem Storage.ByteSource.memory_bounded (bytes : List UInt8) :
    (ByteSource.memory bytes).Bounded := by
  constructor
  · intro d hd
    cases hd
    exact Nat.le_refl _
  · intro start stop d hd
    cases hd
    rw [List.length_take]
    omega

theorem Storage.Node.length_delivery (node : Node) (start count : Nat) :
    (node.delivery start count).bytes.length ≤ count := by
  cases node with
  | file bytes => exact List.length_take_le _ _
  | directory =>
      rw [Node.delivery]
      split <;> exact Nat.zero_le _
  | device => exact Nat.zero_le _

theorem Storage.FileSource.view_bounded (find : Lookup)
    (s : FileSource) : (s.view find).Bounded := by
  constructor
  · intro d hd
    rcases hnode : find s.path with cause | node
    · simp only [FileSource.view, hnode] at hd
      cases hd
    · simp only [FileSource.view, hnode] at hd
      cases hd
      exact node.length_delivery 0 s.size
  · intro start stop d hd
    rcases hnode : find s.path with cause | node
    · simp only [FileSource.view, hnode] at hd
      cases hd
    · simp only [FileSource.view, hnode] at hd
      change (if placeLimit ≤ start then _ else _) = _ at hd
      split at hd
      · cases hd
      · cases hd
        exact node.length_delivery start (stop - start)

theorem Storage.ByteSource.Bounded.broken {source : ByteSource}
    (h : source.Bounded) (b : Breakage) : (source.broken b).Bounded := by
  have hdelivery (size start stop : Nat) (d : Delivery) :
      (b.delivery size start stop d).bytes.length ≤ d.bytes.length := by
    unfold Breakage.delivery
    split
    · exact Nat.le_refl _
    · split
      · exact List.length_take_le' _ _
      · exact Nat.le_refl _
  constructor
  · intro d hd
    simp only [ByteSource.broken] at hd
    split at hd
    · cases hd
    · rcases hstream : source.stream with cause | whole
      · rw [hstream] at hd
        cases hd
      · rw [hstream] at hd
        cases hd
        exact (hdelivery _ _ _ whole).trans (h.stream_le whole hstream)
  · intro start stop d hd
    simp only [ByteSource.broken] at hd
    split at hd
    · cases hd
    · rcases hslice : source.slice start stop with cause | whole
      · rw [hslice] at hd
        cases hd
      · rw [hslice] at hd
        cases hd
        exact (hdelivery _ _ _ whole).trans (h.slice_le start stop whole hslice)

theorem Storage.LogSource.view_bounded (find : Lookup) (log : LogSource) :
    (log.view find).Bounded := by
  induction log with
  | memory bytes => exact ByteSource.memory_bounded bytes
  | file s => exact s.view_bounded find
  | broken log b ih => exact ih.broken b

section

variable {source : ByteSource} {a : Arrival} {settings : Settings}

theorem Storage.Delivery.CutInto.length_pieces {d : Delivery}
    {reads : List Read} (h : d.CutInto reads) :
    (piecesOf reads).flatten.length = d.bytes.length := by
  rw [flatten_piecesOf, h.brings.1]

theorem indexArrived_within (hsource : source.Bounded)
    (hsize : a.size = source.size) (h : Arrives source.stream a.stream) :
    Within source.size (indexArrived a settings).1 := by
  generalize hstream : source.stream = asked at h
  generalize harrived : a.stream = arrived at h
  cases h with
  | refused cause =>
      simp only [indexArrived, harrived]
      exact List.forall_mem_nil _
  | @delivered d reads hcut =>
      have hle := hsource.stream_le d hstream
      rw [← hcut.length_pieces] at hle
      intro p hp
      simp only [indexArrived, harrived, List.mem_filterMap] at hp
      obtain ⟨e, he, hp⟩ := hp
      cases e with
      | line raw => cases hp
      | progress place total =>
          cases hp
          obtain ⟨before, after, hsplit⟩ := List.append_of_mem he
          obtain ⟨htotal, taken, piece, rest, hpieces, hplace, -⟩ :=
            (Splitter.start reads a.size settings).runs.tellsRead rfl hsplit
          have hall : piecesOf reads = taken ++ piece :: rest := hpieces
          rw [hall, List.flatten_append, List.flatten_cons,
            List.length_append, List.length_append] at hle
          have hoffset :
              (Splitter.start reads a.size settings).offset = 0 := rfl
          refine ⟨?_, htotal.trans hsize⟩
          show place ≤ total
          have htotal' : total = source.size := htotal.trans hsize
          omega

theorem readArrived_within (hsource : source.Bounded) {line : Line}
    (h : Arrives (source.slice line.start line.stop)
      (a.slice line.start line.stop)) :
    Within line.bodyLength (progressOf (readArrived a settings line).1) := by
  generalize hslice : source.slice line.start line.stop = asked at h
  generalize harrived : a.slice line.start line.stop = arrived at h
  cases h with
  | refused cause =>
      simp only [readArrived, harrived]
      exact List.forall_mem_nil _
  | @delivered d reads hcut =>
      have hle := hsource.slice_le _ _ d hslice
      rw [← hcut.length_pieces] at hle
      intro p hp
      simp only [readArrived, harrived, progressOf, List.mem_filterMap] at hp
      obtain ⟨report, hreport, hp⟩ := hp
      cases report with
      | outcome o => cases hp
      | done => cases hp
      | progress place total =>
          cases hp
          obtain ⟨taken, rest, b, hpieces, -, -, -, htells⟩ :=
            BodyState.readAll_tells line.bodyLength
              settings.lineProgressStep reads
          obtain ⟨before, after, hsplit⟩ := List.append_of_mem hreport
          obtain ⟨htotal, first, piece, more, rfl, hplace, -⟩ :=
            htells before place total after hsplit
          rw [hpieces, List.flatten_append, List.flatten_append,
            List.flatten_cons, List.length_append, List.length_append,
            List.length_append] at hle
          refine ⟨?_, htotal⟩
          show place ≤ total
          rw [htotal, Line.bodyLength]
          omega

end

/-- Progress through a log and through its lines, whatever the reads are and
whatever the steps. Both loops tell ends of reads, ascending and a step apart,
and leave none untold that is a step behind; a splitter tells those of all the
reads, a body those of the reads it took. A splitter tells a read before the
lines that end in it, a body behind the outcomes that it completes. From
whatever log, at whatever moment and in whatever reads, no place is told that
lies beyond its total: the size of the log, or the bytes of the line. -/
theorem progress_paced (settings : Settings) :
    (∀ (reads : List Read) (size : Nat),
      (∀ piece ∈ piecesOf reads, piece ≠ []) →
      let events := (Splitter.start reads size settings).run.1
      Paced settings.fileProgressStep (endsOf 0 (piecesOf reads))
        (events.filterMap SplitEvent.place?) ∧
      ∀ before place total after,
        events = before ++ .progress place total :: after →
          (Splitter.start reads size settings).TellsRead before after
            place total) ∧
    (∀ (reads : List Read) (size : Nat),
      (∀ piece ∈ piecesOf reads, piece ≠ []) →
      let read := BodyState.start.readAll size settings.lineProgressStep reads
      let reports := read.2.line.reports.reverse
      ∃ taken rest b, piecesOf reads = taken ++ rest ∧
        BodyState.Took size settings.lineProgressStep taken b ∧
        BodyState.Ends b rest (faultOf reads) read ∧
        Paced settings.lineProgressStep (endsOf 0 taken)
          (reports.filterMap Report.place?) ∧
        ∀ before place total after,
          reports = before ++ .progress place total :: after →
            TellsPiece size taken before place total) ∧
    (∀ (log : LogSource) (find : Lookup),
      let source := log.view find
      (Within source.size (indexLines source settings).1 ∧
        ∀ line, Within line.bodyLength
          (progressOf (readLine source settings line).1)) ∧
      ∀ a : Arrival, a.size = source.size →
        Arrives source.stream a.stream →
        (∀ start stop, Arrives (source.slice start stop) (a.slice start stop)) →
        Within source.size (indexArrived a settings).1 ∧
        ∀ line, Within line.bodyLength
          (progressOf (readArrived a settings line).1)) := by
  refine ⟨?_, ?_, ?_⟩
  · intro reads size hfull events
    exact ⟨Splitter.run_paced hfull size settings,
      fun before place total after hsplit =>
        (Splitter.start reads size settings).runs.tellsRead rfl hsplit⟩
  · intro reads size hfull read reports
    obtain ⟨taken, rest, b, hpieces, htook, hends, hplaces, htells⟩ :=
      BodyState.readAll_tells size settings.lineProgressStep reads
    refine ⟨taken, rest, b, hpieces, htook, hends, ?_, htells⟩
    rw [hplaces]
    refine toldOf_paced (endsOf_ascending fun piece hpiece => hfull piece ?_)
    rw [hpieces]
    exact List.mem_append_left rest hpiece
  · intro log find source
    have hsource : source.Bounded := log.view_bounded find
    refine ⟨⟨?_, fun line => ?_⟩, fun a hsize hstream hslice =>
      ⟨indexArrived_within hsource hsize hstream,
        fun line => readArrived_within hsource (hslice _ _)⟩⟩
    · rw [indexLines_eq_arrived]
      exact indexArrived_within hsource rfl
        (arrives_reads source.stream settings.readSize)
    · rw [readLine_eq_arrived]
      exact readArrived_within hsource (arrives_reads _ settings.readSize)

/-- An array on three lines in reads of two bytes, told every four: as a log and
as a body. -/
theorem progress_paced_of_four :
    let settings :=
      { Settings.default with fileProgressStep := 4, lineProgressStep := 4 }
    let bytes := "[1,\n22,\n3]".toUTF8.toList
    let reads := Delivery.reads ⟨bytes, none⟩ 2
    let reports :=
      (BodyState.start.readAll 10 4 reads).2.line.reports.reverse
    let arrival := (ByteSource.memory bytes).arrival 2
    (∀ piece ∈ piecesOf reads, piece ≠ []) ∧
    ((Splitter.start reads 10 settings).run.1.filterMap SplitEvent.place?
        = [4, 8] ∧
      Paced 4 [2, 4, 6, 8, 10] [4, 8]) ∧
    reports.filterMap Report.place? = [4, 8] ∧
    (∃ taken rest, piecesOf reads = taken ++ rest ∧
      Paced 4 (endsOf 0 taken) [4, 8]) ∧
    Within bytes.length (indexArrived arrival settings).1 := by
  intro settings bytes reads reports arrival
  obtain ⟨hsplitter, hbody, hwithin⟩ := progress_paced settings
  have hfull : ∀ piece ∈ piecesOf reads, piece ≠ [] := by decide +kernel
  have hends : endsOf 0 (piecesOf reads) = [2, 4, 6, 8, 10] := by
    decide +kernel
  have hplaces : (Splitter.start reads 10 settings).run.1.filterMap
      SplitEvent.place? = [4, 8] := by decide +kernel
  have hreported : reports.filterMap Report.place? = [4, 8] := by
    decide +kernel
  have hpaced := (hsplitter reads 10 hfull).1
  rw [hends, hplaces] at hpaced
  obtain ⟨taken, rest, -, hpieces, -, -, htaken, -⟩ := hbody reads 10 hfull
  have harrives := (hwithin (.memory bytes) (fun _ => .error .badPlace)).2
    arrival rfl (arrives_reads _ 2) fun _ _ => arrives_reads _ 2
  refine ⟨hfull, ⟨hplaces, hpaced⟩, hreported,
    ⟨taken, rest, hpieces, ?_⟩, harrives.1⟩
  rw [← hreported]
  exact htaken

end Ridership

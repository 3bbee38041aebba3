import Ridership.Log.Index
import Ridership.Proofs.LineSplitting

/-!
# The index of a log is a partition of it

The lines of an index tell where segments lie, and they are trusted with it
later: a line is read again by its place alone. So the places of the lines and
the segments of the content have to fit together without a gap, for one byte
too many in front would shift all lines behind.

Where a line begins is the sum of what stands before it, its segments and one
line end each (`spanOf`). The index adds this up while it goes along
(`getElem?_ofSegments`), and cutting the content at the same sums gives its
segments back (`slice_segments`). The two meet in the slices of a source.
-/

namespace Ridership.Log

open Forecast (ForecastError)
open Storage (ByteSource Delivery bytesOf faultOf)

/-- A line with the time that its first bytes tell. -/
def RawLine.timed (raw : RawLine) : Line :=
  { raw.line with systemTime := snapshotTime raw.lead }

/-! ## What is indexed -/

/-- An index has a line for each segment that is told, and there is none after
a fault. -/
theorem indexLines_of_stream {source : ByteSource} {delivery : Delivery}
    (hstream : source.stream = .ok delivery) (settings : Settings) :
    (indexLines source settings).2 = (endOf delivery.fault).map fun _ =>
      (RawLine.ofSegments settings.leadLimit 0
        (segmentsTold delivery.bytes delivery.fault)).map RawLine.timed := by
  obtain ⟨hbytes, hfault⟩ := delivery.bytesOf_reads settings.readSize
  have hfaces := Splitter.start_faces (delivery.reads settings.readSize)
    source.size settings
  rw [hbytes, hfault] at hfaces
  obtain ⟨hlines, hend⟩ := hfaces.run
  simp only [indexLines, hstream]
  rw [hend, ← hlines, List.map_filterMap]
  refine congrArg (fun f => Except.map (fun _ => List.filterMap f _) _)
    (funext fun e => ?_)
  cases e with
  | progress offset size => rfl
  | line raw => rfl

theorem indexLines_of_holds {source : ByteSource} {content : List UInt8}
    (h : source.Holds content) (settings : Settings) :
    (indexLines source settings).2 = .ok ((RawLine.ofSegments
      settings.leadLimit 0 (segments content)).map RawLine.timed) :=
  indexLines_of_stream h.stream_eq settings

/-! ## Where it lies -/

/-- The bytes of segments with their line ends. -/
def spanOf : List (List UInt8) → Nat
  | [] => 0
  | segment :: rest => segment.length + 1 + spanOf rest

theorem spanOf_take_succ {segments : List (List UInt8)} {i : Nat}
    {segment : List UInt8} (h : segments[i]? = some segment) :
    spanOf (segments.take (i + 1))
      = spanOf (segments.take i) + segment.length + 1 := by
  induction segments generalizing i with
  | nil => exact absurd h (by simp)
  | cons first rest ih =>
      cases i with
      | zero =>
          obtain rfl : first = segment := by simpa using h
          simp [spanOf]
      | succ i =>
          have hrest := ih (by simpa using h)
          rw [List.take_succ_cons, spanOf, hrest, List.take_succ_cons, spanOf]
          omega

theorem RawLine.getElem?_ofSegments (leadLimit start : Nat)
    (segments : List (List UInt8)) (i : Nat) :
    (ofSegments leadLimit start segments)[i]? = segments[i]?.map
      (ofSegment leadLimit (start + spanOf (segments.take i))) := by
  induction segments generalizing start i with
  | nil => rfl
  | cons segment rest ih =>
      cases i with
      | zero => rfl
      | succ i =>
          rw [ofSegments, List.getElem?_cons_succ, ih,
            List.getElem?_cons_succ, List.take_succ_cons, spanOf,
            ← Nat.add_assoc, ← Nat.add_assoc]

theorem RawLine.length_ofSegments (leadLimit start : Nat)
    (segments : List (List UInt8)) :
    (ofSegments leadLimit start segments).length = segments.length := by
  induction segments generalizing start with
  | nil => rfl
  | cons segment rest ih =>
      rw [ofSegments, List.length_cons, ih, List.length_cons]

/-- Where the sums say that a segment lies, there it lies. -/
theorem slice_segments {content segment : List UInt8} {i : Nat}
    (h : (segments content)[i]? = some segment) :
    spanOf ((segments content).take i) + segment.length ≤ content.length ∧
    (content.drop (spanOf ((segments content).take i))).take segment.length
      = segment := by
  induction content using segments_induction generalizing i with
  | tail text hplain =>
      obtain rfl : segment = text := by
        rw [segments_plain hplain] at h
        exact mem_tailSegment (List.mem_of_getElem? h)
      cases i with
      | zero => exact ⟨by simp [spanOf], by simp [spanOf]⟩
      | succ i =>
          rw [segments_plain hplain, tailSegment] at h
          split at h <;> simp at h
  | line first rest hplain ih =>
      rw [segments_line hplain] at h ⊢
      cases i with
      | zero =>
          obtain rfl : first = segment := by simpa using h
          exact ⟨by simp [spanOf], by simp [spanOf]⟩
      | succ i =>
          obtain ⟨hle, hslice⟩ := ih (by simpa using h)
          rw [List.take_succ_cons, spanOf, List.length_append,
            List.length_cons]
          refine ⟨by omega, ?_⟩
          have hdrop : (first ++ lineEnd :: rest).drop
                (first.length + 1 + spanOf ((segments rest).take i))
              = rest.drop (spanOf ((segments rest).take i)) := by
            rw [← List.drop_drop, List.drop_length_add_append]
            rfl
          rw [hdrop, hslice]

/-! ## The index -/

section

variable {source : ByteSource} {content : List UInt8} {settings : Settings}
  {lines : List Line} {line : Line} {i : Nat}

/-- The line of an index and the segment it stands for. -/
theorem getElem?_indexLines (h : source.Holds content)
    (hlines : (indexLines source settings).2 = .ok lines)
    (hline : lines[i]? = some line) :
    ∃ segment, (segments content)[i]? = some segment ∧
      line = (RawLine.ofSegment settings.leadLimit
        (spanOf ((segments content).take i)) segment).timed := by
  rw [indexLines_of_holds h] at hlines
  cases hlines
  rw [List.getElem?_map, RawLine.getElem?_ofSegments, Nat.zero_add,
    Option.map_map] at hline
  obtain ⟨segment, hsegment, hline⟩ := Option.map_eq_some_iff.mp hline
  exact ⟨segment, hsegment, hline.symm⟩

/-- A line of an index has its segment as slice. -/
theorem slice_of_indexLines (h : source.Holds content)
    (hlines : (indexLines source settings).2 = .ok lines)
    (hline : lines[i]? = some line) :
    ∃ segment, (segments content)[i]? = some segment ∧
      line.start ≤ line.stop ∧ line.stop ≤ content.length ∧
      line.stop - line.start = segment.length ∧
      (content.drop line.start).take (line.stop - line.start) = segment ∧
      source.slice line.start line.stop = .ok ⟨segment, none⟩ := by
  obtain ⟨segment, hsegment, rfl⟩ := getElem?_indexLines h hlines hline
  obtain ⟨hstop, hslice⟩ := slice_segments hsegment
  generalize spanOf ((segments content).take i) = start at hstop hslice
  have hlength : start + segment.length - start = segment.length := by omega
  have hsource := h.slice_eq start (start + segment.length) (by omega) hstop
  rw [hlength, hslice] at hsource
  refine ⟨segment, hsegment, Nat.le_add_right .., hstop, hlength, ?_,
    hsource⟩
  show (content.drop start).take (start + segment.length - start) = segment
  rw [hlength, hslice]

end

/-- An index of a log has one line for each segment of its content, in order
and without a gap, in whatever reads the content arrives. The slice of a line
is its segment, through whatever buffer it is read, and the segments are the
content. -/
theorem indexLines_partition {source : ByteSource} {content : List UInt8}
    (h : source.Holds content) (settings : Settings) :
    ∃ lines : List Line, (indexLines source settings).2 = .ok lines ∧
      (∀ reads, bytesOf reads = content → faultOf reads = none →
        ((Splitter.start reads source.size settings).run.1.filterMap
          SplitEvent.line?).map RawLine.timed = lines) ∧
      lines.length = content.count lineEnd
        + (if openTail content = [] then 0 else 1) ∧
      lines.length = (segments content).length ∧
      (∀ line, lines[0]? = some line → line.start = 0) ∧
      (∀ (i : Nat) (line next : Line), lines[i]? = some line →
        lines[i + 1]? = some next → next.start = line.stop + 1) ∧
      (∀ (i : Nat) (line : Line), lines[i]? = some line →
        ∃ segment, (segments content)[i]? = some segment ∧
          lineEnd ∉ segment ∧
          line.start ≤ line.stop ∧
          line.length = line.stop - line.start + 1 ∧
          (∃ delivery, source.slice line.start line.stop = .ok delivery ∧
            ∀ n, bytesOf (delivery.reads n) = segment ∧
              faultOf (delivery.reads n) = none) ∧
          line.systemTime
            = snapshotTime (segment.take settings.leadLimit)) ∧
      [lineEnd].intercalate (segments content)
          ++ (if content.getLast? = some lineEnd then [lineEnd] else [])
        = content := by
  have hlines := indexLines_of_holds h settings
  refine ⟨_, hlines, ?_, ?_, ?_, ?_, ?_, ?_, intercalate_segments content⟩
  · rintro reads rfl hfault
    have hfaces := Splitter.start_faces reads source.size settings
    rw [hfaces.run.1, hfault]
    rfl
  · rw [List.length_map, RawLine.length_ofSegments, length_segments]
  · rw [List.length_map, RawLine.length_ofSegments]
  · intro line hline
    obtain ⟨segment, -, rfl⟩ := getElem?_indexLines h hlines hline
    rfl
  · intro i line next hline hnext
    obtain ⟨segment, hsegment, rfl⟩ := getElem?_indexLines h hlines hline
    obtain ⟨-, -, rfl⟩ := getElem?_indexLines h hlines hnext
    exact spanOf_take_succ hsegment
  · intro i line hline
    obtain ⟨segment, hsegment, hle, -, -, -, hslice⟩ :=
      slice_of_indexLines h hlines hline
    refine ⟨segment, hsegment,
      not_mem_of_mem_segments (List.mem_of_getElem? hsegment), hle, ?_,
      ⟨_, hslice, fun n => Delivery.bytesOf_reads _ n⟩, ?_⟩
    · obtain ⟨_, -, rfl⟩ := getElem?_indexLines h hlines hline
      rfl
    · obtain ⟨_, hsegment', rfl⟩ := getElem?_indexLines h hlines hline
      obtain rfl := Option.some.inj (hsegment.symm.trans hsegment')
      rfl

/-- A line with a time, an empty one, and one without a line end. -/
def threeLines : List UInt8 :=
  "\x7b\"system_time\":5\x7d\n\nx".toUTF8.toList

/-- The three lines as a file, read through a buffer that cuts them. -/
theorem indexLines_partition_of_three :
    let source := Storage.FileSource.view (fun _ => .ok (.file threeLines))
      ⟨"log", threeLines.length⟩
    source.Holds threeLines ∧
    ∃ lines : List Line,
      (indexLines source { Settings.default with readSize := 4 }).2
        = .ok lines ∧
      lines.length = 3 ∧
      [lineEnd].intercalate (segments threeLines) = threeLines := by
  intro source
  have h : source.Holds threeLines :=
    Storage.FileSource.view_holds rfl (by decide +kernel)
  obtain ⟨lines, hlines, -, hcount, -, -, -, -, hjoin⟩ :=
    indexLines_partition h { Settings.default with readSize := 4 }
  refine ⟨h, lines, hlines, hcount.trans (by decide +kernel), ?_⟩
  rwa [if_neg (by decide +kernel), List.append_nil] at hjoin

end Ridership.Log

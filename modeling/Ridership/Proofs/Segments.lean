/-!
# The segments of a text

A line end closes what stands before it. So a text consists of the segments
that its line ends close and of a tail behind the last of them, which may be
empty. The tail is a segment of its own only if there is anything of it; a text
that ends with a line end does not have one more segment than line ends.

`segments_cases` is how a text is taken apart: it has no line end, or it begins
with a segment that one closes. All that is said of segments follows these two
cases, and nothing here has to look at single bytes.
-/

namespace Ridership.Log

/-- The byte that ends a line. -/
abbrev lineEnd : UInt8 := 0x0A

/-- The segments of a text that a line end closes. -/
def closedSegments (text : List UInt8) : List (List UInt8) :=
  (text.splitOn lineEnd).dropLast

/-- What stands behind the last line end of a text. -/
def openTail (text : List UInt8) : List UInt8 :=
  (text.splitOn lineEnd).getLastD []

/-- A tail as a segment, if there is anything of it. -/
def tailSegment (tail : List UInt8) : List (List UInt8) :=
  if tail = [] then [] else [tail]

/-- The segments of a text. -/
def segments (text : List UInt8) : List (List UInt8) :=
  closedSegments text ++ tailSegment (openTail text)

/-! ## Taking a text apart -/

/-- A text is a tail alone, or a segment with its line end and more text. -/
theorem segments_cases (text : List UInt8) :
    lineEnd ∉ text ∨ ∃ segment rest, lineEnd ∉ segment ∧
      text = segment ++ lineEnd :: rest := by
  by_cases h : lineEnd ∈ text
  · obtain ⟨segment, rest, htext, hplain⟩ := List.eq_append_cons_of_mem h
    exact .inr ⟨segment, rest, hplain, htext⟩
  · exact .inl h

section

variable {segment : List UInt8} (h : lineEnd ∉ segment)

include h

theorem closedSegments_plain : closedSegments segment = [] := by
  rw [closedSegments, List.splitOn_eq_singleton h]
  rfl

theorem openTail_plain : openTail segment = segment := by
  rw [openTail, List.splitOn_eq_singleton h]
  rfl

theorem segments_plain : segments segment = tailSegment segment := by
  rw [segments, closedSegments_plain h, openTail_plain h, List.nil_append]

variable (rest : List UInt8)

theorem closedSegments_line :
    closedSegments (segment ++ lineEnd :: rest)
      = segment :: closedSegments rest := by
  rw [closedSegments, List.splitOn_append_cons_self_of_not_mem h,
    List.dropLast_cons_of_ne_nil (List.splitOn_ne_nil _ _)]
  rfl

theorem openTail_line :
    openTail (segment ++ lineEnd :: rest) = openTail rest := by
  rw [openTail, List.splitOn_append_cons_self_of_not_mem h,
    List.getLastD_eq_getLast?, List.getLast?_cons_of_ne_nil
      (List.splitOn_ne_nil _ _), ← List.getLastD_eq_getLast?]
  rfl

theorem segments_line :
    segments (segment ++ lineEnd :: rest) = segment :: segments rest := by
  rw [segments, closedSegments_line h, openTail_line h, List.cons_append]
  rfl

end

/-- To show something of every text, it is enough to show it of a tail, and of
a segment with its line end in front of a text of which it is known. -/
theorem segments_induction {P : List UInt8 → Prop}
    (tail : ∀ text, lineEnd ∉ text → P text)
    (line : ∀ segment rest, lineEnd ∉ segment → P rest →
      P (segment ++ lineEnd :: rest)) (text : List UInt8) : P text := by
  rcases segments_cases text with hplain | ⟨segment, rest, hplain, htext⟩
  · exact tail text hplain
  · have hshorter : rest.length < text.length := by
      rw [htext, List.length_append, List.length_cons]
      omega
    rw [htext]
    exact line segment rest hplain (segments_induction tail line rest)
termination_by text.length

/-! ## What the segments tell of a text -/

theorem mem_tailSegment {tail segment : List UInt8}
    (h : segment ∈ tailSegment tail) : segment = tail := by
  unfold tailSegment at h
  split at h
  · exact absurd h List.not_mem_nil
  · exact List.mem_singleton.mp h

theorem segments_ne_nil {text : List UInt8} (h : text ≠ []) :
    segments text ≠ [] := by
  rcases segments_cases text with hplain | ⟨segment, rest, hplain, rfl⟩
  · rw [segments_plain hplain, tailSegment, if_neg h]
    exact List.cons_ne_nil _ _
  · rw [segments_line hplain]
    exact List.cons_ne_nil _ _

theorem not_mem_of_mem_segments {text segment : List UInt8}
    (h : segment ∈ segments text) : lineEnd ∉ segment := by
  induction text using segments_induction with
  | tail text hplain =>
      rw [segments_plain hplain] at h
      rw [mem_tailSegment h]
      exact hplain
  | line first rest hplain ih =>
      rw [segments_line hplain] at h
      rcases List.mem_cons.mp h with rfl | h
      · exact hplain
      · exact ih h

/-- There are as many segments as line ends, and one more for a tail. -/
theorem length_segments (text : List UInt8) :
    (segments text).length
      = text.count lineEnd + if openTail text = [] then 0 else 1 := by
  induction text using segments_induction with
  | tail text hplain =>
      rw [segments_plain hplain, openTail_plain hplain,
        List.count_eq_zero_of_not_mem hplain, tailSegment]
      split <;> rfl
  | line first rest hplain ih =>
      rw [segments_line hplain, openTail_line hplain, List.length_cons, ih,
        List.count_append, List.count_cons_self,
        List.count_eq_zero_of_not_mem hplain]
      omega

/-- A text is its segments with line ends between them, and one more behind
them if nothing stands there. -/
theorem intercalate_segments (text : List UInt8) :
    [lineEnd].intercalate (segments text)
        ++ (if text.getLast? = some lineEnd then [lineEnd] else [])
      = text := by
  induction text using segments_induction with
  | tail text hplain =>
      have hlast : text.getLast? ≠ some lineEnd := fun h =>
        hplain (List.mem_of_getLast? h)
      rw [if_neg hlast, List.append_nil, segments_plain hplain, tailSegment]
      split
      · next hnil => rw [hnil, List.intercalate_nil]
      · exact List.intercalate_singleton
  | line first rest hplain ih =>
      rw [segments_line hplain]
      cases rest with
      | nil => simp [segments_plain, tailSegment]
      | cons b rest =>
          have hmore : segments (b :: rest) ≠ [] :=
            segments_ne_nil (List.cons_ne_nil b rest)
          have hlast : (first ++ lineEnd :: b :: rest).getLast?
              = (b :: rest).getLast? := by
            simp [List.getLast?_append, List.getLast?_cons]
          rw [List.intercalate_cons_of_ne_nil hmore, hlast, List.append_assoc,
            ih]
          simp

end Ridership.Log

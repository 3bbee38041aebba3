import Ridership.Proofs.CompactText
import Ridership.Proofs.LineIndex
import Ridership.Proofs.Utf8Text
import Ridership.Session.Notification

/-!
# A body of notifications falls apart into them

Notifications are sent one behind the other with a line end after each, and
whoever receives them has nothing but the line ends to go by. That is enough
because no notification brings a line end along: its text has none, whatever a
log or a fault put into it, and in UTF-8 no other character has the byte of one
in its code.

So a cut at every line end gives the texts back, in order, and behind the last
line end nothing. A splitter makes the same cut while the body arrives, and
finds a line for each notification however the bytes come in.
-/

namespace Ridership.Text.Utf8

open Log (lineEnd)

/-- Only the line end has the byte of the line end in its code. -/
theorem eq_newline_of_mem_utf8EncodeChar {c : Char}
    (h : lineEnd ∈ String.utf8EncodeChar c) : c = '\n' := by
  have hline : lineEnd.toNat = 10 := rfl
  have hcode : c.toNat = 10 := by
    rcases mem_utf8EncodeChar_cases h with hcode | hlarge
    · exact hcode.symm.trans hline
    · omega
  rw [← Char.ofNat_toNat c, hcode]

theorem lineEnd_not_mem_encode {text : String} (h : '\n' ∉ text.toList) :
    lineEnd ∉ encode text := by
  intro hmem
  obtain ⟨c, hc, hbyte⟩ := List.mem_flatMap.mp hmem
  rw [eq_newline_of_mem_utf8EncodeChar hbyte] at hc
  exact h hc

end Ridership.Text.Utf8

namespace Ridership.Session

open Log (RawLine SplitEvent Splitter lineEnd)
open Storage (Delivery Read bytesOf faultOf)

/-- The bytes of a notification's text. -/
def Notification.bytes (n : Notification) : List UInt8 :=
  Text.Utf8.encode n.toValue.text

theorem Notification.bytes_plain (n : Notification) : lineEnd ∉ n.bytes :=
  Text.Utf8.lineEnd_not_mem_encode n.toValue.newline_not_mem_text

theorem Notification.bytes_ne_nil (n : Notification) : n.bytes ≠ [] := by
  have hhead := Json.Value.head?_text_object (("op", .string n.op) :: n.members)
  obtain ⟨rest, hrest⟩ := List.head?_eq_some_iff.mp hhead
  have htext : n.toValue.text.toList = '\x7b' :: rest := hrest
  rw [bytes, Text.Utf8.encode, htext]
  exact List.cons_ne_nil _ _

/-! ## Putting a body together -/

theorem toList_foldl_lines (out : String) (told : List Notification) :
    (told.foldl (fun out n => (n.toValue.write out).push '\n') out).toList
      = out.toList ++ told.flatMap fun n => n.toValue.text.toList ++ ['\n'] := by
  induction told generalizing out with
  | nil => simp
  | cons n told ih =>
      rw [List.foldl_cons, ih, String.toList_push, Json.Value.toList_write]
      simp

/-- A body is the texts of its notifications with a line end behind each. -/
theorem encode_bodyOfLines (told : List Notification) :
    Text.Utf8.encode (bodyOfLines told)
      = told.flatMap fun n => n.bytes ++ [lineEnd] := by
  have hnewline : String.utf8EncodeChar '\n' = [lineEnd] := rfl
  rw [Text.Utf8.encode, bodyOfLines, toList_foldl_lines, String.toList_empty,
    List.nil_append, List.flatMap_assoc]
  refine congrArg (told.flatMap ·) (funext fun n => ?_)
  rw [List.flatMap_append, List.flatMap_singleton, hnewline]
  rfl

/-! ## Taking it apart -/

theorem splitOn_lines (told : List Notification) :
    (told.flatMap fun n => n.bytes ++ [lineEnd]).splitOn lineEnd
      = told.map Notification.bytes ++ [[]] := by
  induction told with
  | nil => rfl
  | cons n told ih =>
      rw [List.flatMap_cons, List.append_assoc, List.singleton_append,
        List.splitOn_append_cons_self_of_not_mem n.bytes_plain, ih]
      rfl

theorem segments_lines (told : List Notification) :
    Log.segments (told.flatMap fun n => n.bytes ++ [lineEnd])
      = told.map Notification.bytes := by
  rw [Log.segments, Log.closedSegments, Log.openTail, splitOn_lines,
    List.dropLast_concat, List.getLastD_concat]
  exact List.append_nil _

/-- Cut at its line ends, a body gives the texts of its notifications, none of
them empty, and nothing behind the last line end. A splitter that the body comes
to in any reads finds these texts, a line for each. -/
theorem bodyOfLines_lines (told : List Notification) :
    let body := Text.Utf8.encode (bodyOfLines told)
    body.splitOn lineEnd = told.map Notification.bytes ++ [[]] ∧
    (∀ n ∈ told, n.bytes ≠ []) ∧
    (body ≠ [] → body.getLast? = some lineEnd) ∧
    ∀ (reads : List Read) (size : Nat) (settings : Settings),
      bytesOf reads = body → faultOf reads = none →
      let run := (Splitter.start reads size settings).run
      run.2 = .ok () ∧
      run.1.filterMap SplitEvent.line?
        = RawLine.ofSegments settings.leadLimit 0
          (told.map Notification.bytes) ∧
      (run.1.filterMap SplitEvent.line?).length = told.length := by
  intro body
  have hbody : body = told.flatMap fun n => n.bytes ++ [lineEnd] :=
    encode_bodyOfLines told
  refine ⟨?_, fun n _ => n.bytes_ne_nil, ?_, ?_⟩
  · rw [hbody]
    exact splitOn_lines told
  · intro hsome
    rw [hbody] at hsome ⊢
    rcases List.eq_nil_or_concat told with rfl | ⟨earlier, last, rfl⟩
    · exact absurd rfl hsome
    · rw [List.concat_eq_append, List.flatMap_append, List.flatMap_singleton,
        ← List.append_assoc]
      exact List.getLast?_concat
  · intro reads size settings hbytes hfault run
    obtain ⟨hlines, hend⟩ := (Splitter.start_faces reads size settings).run
    rw [hbytes, hbody, hfault] at hlines
    rw [hfault] at hend
    rw [Log.segmentsTold, segments_lines] at hlines
    refine ⟨hend, hlines, ?_⟩
    rw [hlines, Log.RawLine.length_ofSegments, List.length_map]

/-- An error text with a line end in it, received three bytes at a time. -/
theorem bodyOfLines_lines_of_newline :
    let told : List Notification :=
      [.commandFailed "loadFile" "a\nb", .interestingTripsDone]
    let body := Text.Utf8.encode (bodyOfLines told)
    let reads := Delivery.reads ⟨body, none⟩ 3
    bytesOf reads = body ∧ faultOf reads = none ∧
    ((Splitter.start reads body.length .default).run.1.filterMap
      SplitEvent.line?).length = 2 := by
  intro told body reads
  have hall : ∀ bytes, bytesOf (Delivery.reads ⟨bytes, none⟩ 3) = bytes ∧
      faultOf (Delivery.reads ⟨bytes, none⟩ 3) = none := fun bytes =>
    Delivery.bytesOf_reads ⟨bytes, none⟩ 3
  have hreads := hall body
  obtain ⟨-, -, -, hsplit⟩ := bodyOfLines_lines told
  obtain ⟨-, -, hcount⟩ := hsplit reads body.length .default hreads.1 hreads.2
  exact ⟨hreads.1, hreads.2, hcount⟩

end Ridership.Session

import Ridership.Storage.FileSource

/-!
# What a delivery brings

Reads bring bytes, and perhaps a fault. How large the buffer was shows in where
one read ends and the next begins, but not in the bytes that all of them bring
up to the fault, nor in the fault. Whoever goes by these two alone does not
depend on the buffer.

A source holds a content if it delivers it, all of it in order and any range of
it, and nothing goes wrong. This is all that is asked of a log that can be read:
bytes at hand are one, and so is a file that still has the size it was opened
with.
-/

namespace Ridership.Storage

/-! ## Reads -/

/-- The bytes that reads bring before anything goes wrong. -/
def bytesOf : List Read → List UInt8
  | [] => []
  | .bytes piece :: reads => piece ++ bytesOf reads
  | .fault _ :: _ => []

/-- The first thing that goes wrong in reads. -/
def faultOf : List Read → Option Fault
  | [] => none
  | .bytes _ :: reads => faultOf reads
  | .fault f :: _ => some f

theorem bytesOf_pieces (pieces : List (List UInt8)) (reads : List Read) :
    bytesOf (pieces.map .bytes ++ reads)
      = pieces.flatten ++ bytesOf reads := by
  induction pieces with
  | nil => rfl
  | cons piece pieces ih =>
      rw [List.map_cons, List.cons_append, bytesOf, ih, List.flatten_cons,
        List.append_assoc]

theorem faultOf_pieces (pieces : List (List UInt8)) (reads : List Read) :
    faultOf (pieces.map .bytes ++ reads) = faultOf reads := by
  induction pieces with
  | nil => rfl
  | cons piece pieces ih => exact ih

/-- Where the piece begins that holds the byte at `place`. -/
def startOf : List (List UInt8) → Nat → Nat
  | [], _ => 0
  | piece :: pieces, place =>
      if place < piece.length then 0
      else piece.length + startOf pieces (place - piece.length)

/-- Bytes are cut into pieces that begin at the multiples of their length. -/
theorem cutBehind_pieces (n : Nat) (before : List Read) (bytes : List UInt8) :
    ∃ pieces : List (List UInt8),
      cutBehind n before bytes = before.reverse ++ pieces.map .bytes ∧
      pieces.flatten = bytes ∧
      ∀ place < bytes.length,
        startOf pieces place = max 1 n * (place / max 1 n) := by
  fun_induction cutBehind n before bytes with
  | case1 before => exact ⟨[], by simp, rfl, by simp⟩
  | case2 before b rest ih =>
      obtain ⟨pieces, hcut, hpieces, hstarts⟩ := ih
      refine ⟨(b :: rest.take (n - 1)) :: pieces, ?_, ?_, ?_⟩
      · rw [hcut]
        simp
      · rw [List.flatten_cons, hpieces, List.cons_append,
          List.take_append_drop]
      · intro place hplace
        rw [List.length_drop] at hstarts
        rw [List.length_cons] at hplace
        have hlength : (b :: rest.take (n - 1)).length
            = min (max 1 n) (rest.length + 1) := by
          rw [List.length_cons, List.length_take]
          omega
        rw [startOf, hlength]
        split
        · next hin => rw [Nat.div_eq_of_lt (by omega), Nat.mul_zero]
        · next hout =>
            -- This piece is a full one, for there are bytes behind it.
            have hfull : min (max 1 n) (rest.length + 1) = max 1 n := by omega
            rw [hfull, hstarts _ (by omega),
              Nat.div_eq_sub_div (by omega) (by omega : max 1 n ≤ place),
              Nat.mul_add, Nat.mul_one, Nat.add_comm]

/-- The reads of a delivery are the pieces of its bytes, and its fault. -/
theorem Delivery.reads_pieces (d : Delivery) (n : Nat) :
    ∃ pieces : List (List UInt8),
      d.reads n = pieces.map .bytes ++ (d.fault.map .fault).toList ∧
      pieces.flatten = d.bytes ∧
      ∀ place < d.bytes.length,
        startOf pieces place = max 1 n * (place / max 1 n) := by
  obtain ⟨pieces, hcut, hpieces⟩ := cutBehind_pieces n [] d.bytes
  refine ⟨pieces, ?_, hpieces⟩
  rw [reads, hcut, List.reverse_nil, List.nil_append]
  cases d.fault <;> rfl

/-- The reads of a delivery bring what is delivered, through any buffer. -/
theorem Delivery.bytesOf_reads (d : Delivery) (n : Nat) :
    bytesOf (d.reads n) = d.bytes ∧ faultOf (d.reads n) = d.fault := by
  obtain ⟨pieces, hreads, hpieces, -⟩ := d.reads_pieces n
  rw [hreads, bytesOf_pieces, faultOf_pieces, hpieces]
  cases d.fault with
  | none => exact ⟨List.append_nil _, rfl⟩
  | some f => exact ⟨List.append_nil _, rfl⟩

/-! ## Contents -/

/-- A source that holds a content, and from which nothing goes
wrong to get it. -/
structure ByteSource.Holds (source : ByteSource) (content : List UInt8) :
    Prop where
  stream_eq : source.stream = .ok ⟨content, none⟩
  slice_eq : ∀ start stop, start ≤ stop → stop ≤ content.length →
    source.slice start stop
      = .ok ⟨(content.drop start).take (stop - start), none⟩

theorem ByteSource.memory_holds (content : List UInt8) :
    (memory content).Holds content := by
  refine ⟨rfl, fun start stop hle hstop => ?_⟩
  have hstart : min start content.length = start := by omega
  have hclamp : max start (min stop content.length) = stop := by omega
  simp only [memory, hstart, hclamp]

/-- A file that is there, and has the size it was opened with. -/
theorem FileSource.view_holds {find : Lookup} {path : String}
    {content : List UInt8} (hfile : find path = .ok (.file content))
    (hplace : content.length < placeLimit) :
    (FileSource.view find ⟨path, content.length⟩).Holds content := by
  refine ⟨?_, fun start stop hle hstop => ?_⟩
  · simp only [view, hfile, Except.map, Node.delivery, List.drop_zero,
      List.take_length]
  · have hstart : ¬ placeLimit ≤ start := by omega
    simp only [view, hfile]
    show (if placeLimit ≤ start then _ else _) = _
    rw [if_neg hstart]
    rfl

end Ridership.Storage

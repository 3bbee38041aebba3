import Ridership.Storage.Fault

/-!
# Where bytes come from

A source is asked for all its bytes in order, or for a range of them. What
it delivers arrives in reads, each as large as the buffer allows, and ends
either regularly or with a fault. Those who read see the reads only, so what
they do can be stated for every way the bytes may be cut.
-/

namespace Ridership.Storage

/-- What one read brings. No read is empty: an empty one would be the end. -/
inductive Read where
  | bytes (piece : List UInt8)
  | fault (f : Fault)

/-- Bytes that are delivered one after another, and what comes
after the last. -/
structure Delivery where
  bytes : List UInt8
  fault : Option Fault

/-- Cuts bytes into pieces of `n`, or of one if `n` is zero; the pieces before
are given last first. -/
def cutBehind (n : Nat) (before : List Read) : List UInt8 → List Read
  | [] => before.reverse
  | b :: rest =>
      cutBehind n (.bytes (b :: rest.take (n - 1)) :: before)
        (rest.drop (n - 1))
termination_by bytes => bytes.length
decreasing_by simp only [List.length_drop, List.length_cons]; omega

/-- The reads of a delivery through a buffer of `n` bytes. A buffer holds one
byte at least. -/
def Delivery.reads (d : Delivery) (n : Nat) : List Read :=
  cutBehind n [] d.bytes ++ match d.fault with
    | some f => [.fault f]
    | none => []

/-- Something that delivers bytes. -/
structure ByteSource where
  size : Nat
  /-- All bytes in order. -/
  stream : Except Fault Delivery
  /-- The bytes from one place up to another. -/
  slice : Nat → Nat → Except Fault Delivery

/-- Bytes that are at hand. A range beyond their end is cut to it. -/
def ByteSource.memory (bytes : List UInt8) : ByteSource :=
  let size := bytes.length
  { size
    stream := .ok ⟨bytes, none⟩
    slice := fun start stop =>
      let start := min start size
      let stop := max start (min stop size)
      .ok ⟨(bytes.drop start).take (stop - start), none⟩ }

/-- Ways for a source to give out. -/
structure Breakage where
  /-- Whether all the bytes in order cannot be had. -/
  stream : Bool
  /-- Ranges from this place on cannot be had. -/
  sliceFrom : Option Nat
  /-- The byte at this place cannot be read. -/
  readAt : Option Nat
  cause : Fault

/-- A delivery of the bytes from `start` to `stop` that gives out at the broken
byte, if it is one of them. -/
def Breakage.delivery (b : Breakage) (size start stop : Nat) (d : Delivery) :
    Delivery :=
  match b.readAt with
  | none => d
  | some place =>
      if place < min stop size then
        ⟨d.bytes.take (place - start), some b.cause⟩
      else d

/-- A source that gives out. -/
def ByteSource.broken (s : ByteSource) (b : Breakage) : ByteSource where
  size := s.size
  stream :=
    if b.stream then .error b.cause
    else s.stream.map (b.delivery s.size 0 s.size)
  slice := fun start stop =>
    if b.sliceFrom.any (· ≤ start) then .error b.cause
    else (s.slice start stop).map (b.delivery s.size start stop)

end Ridership.Storage

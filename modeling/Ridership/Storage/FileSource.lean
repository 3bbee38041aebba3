import Ridership.Storage.Source
import Ridership.Width

/-!
# Files as sources

A file is opened as a source by its path and its size. It is looked up again
each time it is read, so a source delivers what the file holds then, though
never more in order than the file had when it was opened.

All that is asked of the files is what a path leads to. So what is said here
holds of files on a disk and of files at hand alike.
-/

namespace Ridership.Storage

/-- Something that has a path. -/
inductive Node where
  | file (bytes : List UInt8)
  | directory
  /-- Something that is neither, and holds no bytes of its own. -/
  | device

/-- What each path leads to, at one moment. -/
abbrev Lookup := String → Except Fault Node

/-- A file as a source. -/
structure FileSource where
  path : String
  /-- The size it had when it was opened. -/
  size : Nat
  deriving DecidableEq, Repr

/-- Opens a file as a source. -/
def FileSource.open (find : Lookup) (path : String) :
    Except Fault FileSource := do
  match ← find path with
  | .file bytes => return ⟨path, bytes.length⟩
  | .directory | .device => throw (.notRegular path)

/-- A delivery of up to `count` bytes of a node from a place. A directory can
be opened but not read, and a device delivers nothing. -/
def Node.delivery (node : Node) (start count : Nat) : Delivery :=
  match node with
  | .file bytes => ⟨(bytes.drop start).take count, none⟩
  | .directory => if count = 0 then ⟨[], none⟩ else ⟨[], some .isDirectory⟩
  | .device => ⟨[], none⟩

/-- The first place that a file cannot have. -/
def placeLimit : Nat := widthSize 63

/-- What a file delivers, as the files are now. -/
def FileSource.view (find : Lookup) (s : FileSource) : ByteSource where
  size := s.size
  stream := (find s.path).map fun node => node.delivery 0 s.size
  slice := fun start stop => do
    let node ← find s.path
    if placeLimit ≤ start then throw .badPlace
    return node.delivery start (stop - start)

/-- A log that can be loaded: bytes at hand, or a file; either may give out. -/
inductive LogSource where
  | memory (bytes : List UInt8)
  | file (source : FileSource)
  | broken (source : LogSource) (breakage : Breakage)

/-- What a log delivers, as the files are now. -/
def LogSource.view (find : Lookup) : LogSource → ByteSource
  | .memory bytes => .memory bytes
  | .file source => source.view find
  | .broken source breakage => (source.view find).broken breakage

end Ridership.Storage

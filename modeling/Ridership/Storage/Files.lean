import Ridership.Storage.FileSource

/-!
# Files at hand

Files lie in a tree of directories, and a place in it is told by the names
that lead there from the root. A path is walked name by name, from the root
or from the working directory: every name but the last must lead to a
directory, and so must the last one if a slash follows it.
-/

namespace Ridership.Storage

/-- A place in the tree, whether there is something or not. -/
structure Place where
  /-- The names from the root, the last one first. -/
  names : List String
  deriving DecidableEq, Repr

/-- Where paths begin that do not begin with a slash: a directory of its own
among the temporary ones. -/
def workingPlace : Place := ⟨["ridership", "tmp"]⟩

/-- The place that a name leads to from a place. The root lies in itself. -/
def Place.follow (p : Place) (name : String) : Place :=
  if name = "" ∨ name = "." then p
  else if name = ".." then ⟨p.names.tail⟩
  else ⟨name :: p.names⟩

/-- Whether the second place is the first or lies below it. -/
def Place.encloses (p below : Place) : Bool :=
  p.names.isSuffixOf below.names

/-- The names of a path, cut at its slashes. -/
def pathNames (path : String) : List String :=
  path.splitOn "/"

/-- Where the walk along a path begins. -/
def pathOrigin (path : String) : Place :=
  if path.startsWith "/" then ⟨[]⟩ else workingPlace

/-- The place that a path leads to if all on the way are directories. -/
def Place.ofPath (path : String) : Place :=
  (pathNames path).foldl Place.follow (pathOrigin path)

/-- The directories below the root, and the devices, that every system has. -/
def systemDirectories : List String :=
  ["bin", "dev", "etc", "home", "lib", "opt", "proc", "root", "run", "sbin",
    "sys", "tmp", "usr", "var"]
def systemDevices : List String := ["full", "null", "random", "urandom", "zero"]

/-- What every system has at a place. -/
def systemNode? (p : Place) : Option Node :=
  match p.names with
  | [] => some .directory
  | [name] => if systemDirectories.contains name then some .directory else none
  | [name, "dev"] => if systemDevices.contains name then some .device else none
  | _ => if p = workingPlace then some .directory else none

/-- The files that are known. -/
structure Files where
  entries : List (Place × Node)

/-- No files. -/
def Files.empty : Files := ⟨[]⟩

/-- What lies at a place. A place that others lie below is a directory. -/
def Files.node? (files : Files) (p : Place) : Option Node :=
  match files.entries.find? fun entry => entry.1 = p with
  | some entry => some entry.2
  | none =>
      if files.entries.any fun entry => p.encloses entry.1 then some .directory
      else systemNode? p

/-- The files without what lies at a place or below it. -/
def Files.removeAt (files : Files) (p : Place) : Files :=
  ⟨files.entries.filter fun entry => !p.encloses entry.1⟩

/-- The files with a node at a place, and nothing below it. -/
def Files.put (files : Files) (p : Place) (node : Node) : Files :=
  ⟨(p, node) :: (files.removeAt p).entries⟩

/-- The files without a path and all that lies below it. -/
def Files.remove (files : Files) (path : String) : Files :=
  files.removeAt (.ofPath path)

/-- The files with a file at a path. -/
def Files.write (files : Files) (path : String) (bytes : List UInt8) : Files :=
  files.put (.ofPath path) (.file bytes)

/-- The files with a directory at a path. One that is there already keeps what
is in it. -/
def Files.makeDirectory (files : Files) (path : String) : Files :=
  match files.node? (.ofPath path) with
  | some .directory => files
  | _ => files.put (.ofPath path) .directory

/-- The greatest length of a name, and of a path with the byte behind it. -/
def nameLimit : Nat := 255
def pathLimit : Nat := 4096

/-- Follows one name from a place, which must be a directory. -/
def Files.step (files : Files) (p : Place) (name : String) :
    Except Fault Place :=
  match files.node? p with
  | none => .error .notFound
  | some (.file _) => .error .notDirectory
  | some .device => .error .notDirectory
  | some .directory =>
      if nameLimit < name.utf8ByteSize then .error .nameTooLong
      else
        let next := p.follow name
        if (files.node? next).isSome then .ok next else .error .notFound

/-- What a path leads to. -/
def Files.find (files : Files) : Lookup := fun path => do
  if path.contains '\x00' then throw .badName
  if path = "" then throw .notFound
  if pathLimit ≤ path.utf8ByteSize then throw .nameTooLong
  let found ← (pathNames path).foldlM files.step (pathOrigin path)
  match files.node? found with
  | some node => return node
  | none => throw .notFound

end Ridership.Storage

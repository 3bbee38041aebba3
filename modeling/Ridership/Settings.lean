/-!
# Settings for reading and ranking
-/

namespace Ridership

/-- How logs are read and how much of them is kept. The steps and the size of a
read only decide how often progress is told, never what comes out. -/
structure Settings where
  /-- The bytes at the front of a line that are looked at for its time. -/
  leadLimit : Nat
  /-- The bytes between two reports of progress through a file. -/
  fileProgressStep : Nat
  /-- The bytes between two reports of progress through a line. -/
  lineProgressStep : Nat
  /-- The bytes asked for at a time; a read asks for one at least. -/
  readSize : Nat
  /-- How many trips a ranking holds. -/
  rankingSize : Nat
  deriving DecidableEq, Repr

/-- The settings when nobody chooses any. -/
def Settings.default : Settings :=
  { leadLimit := 1024, fileProgressStep := 100 * 1024 * 1024,
    lineProgressStep := 64 * 1024, readSize := 64 * 1024, rankingSize := 500 }

/-- The settings with another size of a read, which is one at least. -/
def Settings.withReadSize (s : Settings) (size : Nat) : Settings :=
  { s with readSize := max 1 size }

end Ridership

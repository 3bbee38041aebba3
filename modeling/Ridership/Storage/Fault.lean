/-!
# What can go wrong with stored bytes
-/

namespace Ridership.Storage

/-- A cause for not getting at bytes. -/
inductive Fault where
  /-- Nothing has the name. -/
  | notFound
  /-- A name leads through something that is no directory. -/
  | notDirectory
  /-- What has the name holds no bytes of its own. -/
  | notRegular (path : String)
  /-- What has the name is a directory, which cannot be read. -/
  | isDirectory
  /-- A name holds a character that no name can. -/
  | badName
  /-- A name, or all names of a path together, are longer than allowed. -/
  | nameTooLong
  /-- A place that no file can have. -/
  | badPlace
  /-- Anything else, in its own words. -/
  | other (message : String)
  deriving DecidableEq, Repr

/-- The words for a fault. -/
def Fault.message : Fault → String
  | .notFound => "No such file or directory (os error 2)"
  | .notDirectory => "Not a directory (os error 20)"
  | .notRegular path => s!"{path} is not a regular file"
  | .isDirectory => "Is a directory (os error 21)"
  | .nameTooLong => "File name too long (os error 36)"
  | .badName => "file name contained an unexpected NUL byte"
  | .badPlace => "Invalid argument (os error 22)"
  | .other message => message

end Ridership.Storage

import Ridership.Server.HostSettings
import Ridership.Server.Message

/-!
# The host as a program

The host answers the requests of one connection, which it reads from its
standard input, on its standard output. Who hands it the connection listens
at the address that the environment names; a host with an address that does
not read answers nothing. Its argument is a log to load beforehand, and one
that cannot be loaded is left out.
-/

namespace Ridership

open Server (Host HostSettings Request)
open Storage (FileSource Lookup)

/-- What a path on disk leads to. -/
def nodeOnDisk (path : String) :
    BaseIO (Except Storage.Fault Storage.Node) := do
  match ← (IO.FS.readBinFile path).toBaseIO with
  | .ok bytes => return .ok (.file bytes.toList)
  | .error (.noFileOrDirectory _ _ _) => return .error .notFound
  | .error (.inappropriateType _ 20 _) => return .error .notDirectory
  | .error (.inappropriateType _ _ _) => return .ok .directory
  | .error error => return .error (.other (toString error))

/-- What some paths on disk lead to. -/
def lookupOnDisk (paths : List String) : BaseIO Lookup := do
  let found ← paths.mapM fun path => return (path, ← nodeOnDisk path)
  return fun path =>
    match found.find? fun entry => entry.1 = path with
    | some entry => entry.2
    | none => .error .notFound

/-- The paths that a request is about: that of the log that is loaded, and the
one to be loaded. -/
def pathsOf (h : Host) (r : Request) : List String :=
  (h.log.map fun log => log.source.path).toList ++ r.loadPath.toOption.toList

/-- A host with a log loaded beforehand. -/
def preloaded (path : Option String) : BaseIO Host := do
  let h : Host := .start .default
  match path with
  | none => return h
  | some path =>
      let find ← lookupOnDisk [path]
      match FileSource.open find path with
      | .error _ => return h
      | .ok source =>
          return (h.handle (FileSource.view find) (.loadFile source)).1

/-- Reads the lines of a head, up to the empty line behind it or the end. -/
partial def readHead (input : IO.FS.Stream) : IO (List String) := do
  let line ← input.getLine
  let text := String.ofList (Text.trimmed line.toList)
  if text.isEmpty then return [] else return text :: (← readHead input)

/-- Reads so many bytes, or those that are left. -/
partial def readBody (input : IO.FS.Stream) (length : Nat) :
    IO (List UInt8) := do
  let bytes ← input.read (USize.ofNat length)
  if bytes.isEmpty then return []
  else return bytes.toList ++ (← readBody input (length - bytes.size))

/-- Answers requests until there are no more. -/
partial def serve (input output : IO.FS.Stream) (h : Host) : IO Unit := do
  match Server.Head.ofLines? (← readHead input) with
  | none => return ()
  | some head =>
      let request := head.request (← readBody input head.bodyLength)
      let find ← lookupOnDisk (pathsOf h request)
      let (h, response) := h.respond find request
      output.putStr response.message
      output.flush
      serve input output h

end Ridership

/-- Reads the settings, loads the log, and answers requests. -/
def main (args : List String) : IO UInt32 := do
  let said ← IO.getEnv Ridership.Server.addressVariable
  match Ridership.Server.HostSettings.ofParts said args.head? with
  | .error fault =>
      IO.eprintln fault.message
      return 1
  | .ok settings =>
      IO.eprintln s!"listening at {settings.address.text}"
      let h ← Ridership.preloaded settings.preload
      Ridership.serve (← IO.getStdin) (← IO.getStdout) h
      return 0

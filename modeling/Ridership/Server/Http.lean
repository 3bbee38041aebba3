import Ridership.Json.RecordText
import Ridership.Server.MediaType
import Ridership.Session.Dispatcher
import Ridership.Storage.FileSource

/-!
# The commands over HTTP

A host answers requests one after another about the one log of its
dispatcher. Commands answer with their notifications, a line each, and
always with success: a command that fails says so in its last line. What can
be told before a command starts is told by the status: that no log is
loaded, that there is no such line, that a file cannot be opened. A request
that is refused leaves everything as it was.
-/

namespace Ridership.Server

open Json (Value)
open Session (Command CommandError Dispatcher Notification)
open Storage (FileSource Lookup)

/-- A request. -/
structure Request where
  method : String
  /-- What is asked for, as it was sent. -/
  target : String
  contentType : Option String
  body : List UInt8

/-- What an answer carries. -/
structure Content where
  type : String
  text : String
  deriving DecidableEq, Repr

/-- An answer. A request that is not understood is answered by its
status alone. -/
structure Response where
  status : Nat
  content : Option Content
  deriving DecidableEq, Repr

def plainType : String := "text/plain; charset=utf-8"
def jsonType : String := "application/json"
def linesType : String := "application/x-ndjson"

def Response.bare (status : Nat) : Response := ⟨status, none⟩

def Response.json (status : Nat) (v : Value) : Response :=
  ⟨status, some ⟨jsonType, v.text⟩⟩

/-- The answer to a command: its notifications. -/
def Response.notifications (told : List Notification) : Response :=
  ⟨200, some ⟨linesType, Session.bodyOfLines told⟩⟩

/-! ## Errors -/

/-- A refusal that is given words. -/
inductive Refusal where
  | badRequest (message : String)
  | notFound (message : String)
  | conflict (message : String)
  | failure (message : String)
  deriving DecidableEq, Repr

def Refusal.status : Refusal → Nat
  | .badRequest _ => 400
  | .notFound _ => 404
  | .conflict _ => 409
  | .failure _ => 500

def Refusal.message : Refusal → String
  | .badRequest message => message
  | .notFound message => message
  | .conflict message => message
  | .failure message => message

/-- What a command's error is refused as. -/
def Refusal.ofError (error : CommandError) : Refusal :=
  match error with
  | .noFileLoaded => .conflict error.message
  | .lineOutOfRange _ _ => .notFound error.message
  | .forecast _ => .failure error.message

/-- What a file that cannot be opened is refused as. -/
def Refusal.ofOpening (path : String) (cause : Storage.Fault) : Refusal :=
  let message := s!"Cannot open {path}: {cause.message}"
  match cause with
  | .notFound => .notFound message
  | _ => .badRequest message

def Response.refuse (r : Refusal) : Response :=
  .json r.status (.object [("error", .string r.message)])

/-! ## Targets -/

/-- The byte that two hexadecimal digits behind a percent sign stand for. -/
def escapedByte? (c d : Char) : Option UInt8 := do
  let high ← Json.hexValue? (← ascii? c)
  let low ← Json.hexValue? (← ascii? d)
  return UInt8.ofNat (high * 16 + low)
where
  /-- An ASCII character as a byte. -/
  ascii? (c : Char) : Option UInt8 :=
    if c.toNat < 0x80 then some (UInt8.ofNat c.toNat) else none

/-- The bytes of a path segment with its escapes resolved. What only looks like
an escape stays. -/
def unescaped : List Char → List UInt8
  | [] => []
  | '%' :: c :: d :: rest =>
      match escapedByte? c d with
      | some b => b :: unescaped rest
      | none => 0x25 :: unescaped (c :: d :: rest)
  | c :: rest => Text.Utf8.encode (String.singleton c) ++ unescaped rest

/-- Reads an index: decimal digits, a plus before them or not, below `2^64`. -/
def readIndex? (segment : String) : Option Nat :=
  match Text.Utf8.decode (unescaped segment.toList) with
  | .error _ => none
  | .ok text =>
      let digits := match text with
        | '+' :: rest => rest
        | text => text
      if digits.isEmpty || !digits.all Char.isDigit then none
      else
        let n := Decimal.ofDigits (Decimal.leadingDigits digits).1
        if fitsUnsigned 64 n then some n else none

/-- What a target can lead to. -/
inductive Route where
  | health
  | fileLoad
  | lines
  | lineForecast (segment : String)
  | interestingTrips
  deriving DecidableEq, Repr

/-- Whether a character may stand in the name of a scheme. A tilde may too,
though no scheme in use has one. -/
def isSchemeChar (c : Char) : Bool :=
  c.isAlphanum || "+-.~".toList.contains c

/-- The path that a target names. The query and the fragment are left aside,
and so are a scheme and an authority, for a host answers for itself whatever it
is called. -/
def pathOfTarget (target : String) : List Char :=
  let text := target.toList.takeWhile fun c => c ≠ '?' && c ≠ '#'
  match text.dropWhile isSchemeChar with
  | ':' :: '/' :: '/' :: rest => rest.dropWhile (· ≠ '/')
  | _ => text

/-- What a target leads to. -/
def Route.of? (target : String) : Option Route :=
  match ((pathOfTarget target).splitOn '/').map String.ofList with
  | ["", "health"] => some .health
  | ["", "file", "load"] => some .fileLoad
  | ["", "lines"] => some .lines
  | ["", "lines", segment, "forecast"] => some (.lineForecast segment)
  | ["", "interesting-trips"] => some .interestingTrips
  | _ => none

/-- Whether a route is asked for in this way. Where something can be got, its
head can be got too. -/
def Route.allows (route : Route) (method : String) : Bool :=
  match route with
  | .fileLoad => method = "POST"
  | _ => method = "GET" || method = "HEAD"

/-! ## Answers -/

/-- A host between two requests. -/
abbrev Host := Dispatcher FileSource

/-- The most bytes that a body may have. -/
def bodyLimit : Nat := 2 * 1024 * 1024

/-- The fields of a request to load a file. -/
def loadFields : List Json.Field := [⟨"path", .text, false⟩]

/-- The path of a request to load a file, or the status of its refusal. What
follows the record in the body does not count. -/
def Request.loadPath (r : Request) : Except Nat String :=
  if !r.contentType.any isJsonType then .error 415
  else if bodyLimit < r.body.length then .error 413
  else
    match Json.readRecord loadFields r.body with
    | .error .malformed => .error 400
    | .error .mismatch => .error 422
    | .ok (members, _) =>
        match Json.member? "path" members with
        | some (.string path) => .ok path
        | _ => .error 422

/-- Runs a command and answers with what it tells. -/
def Host.answer (find : Lookup) (h : Host) (c : Command FileSource) :
    Host × Response :=
  let (h, told, _) := h.handle (FileSource.view find) c
  (h, .notifications told)

/-- Loads a file. -/
def Host.load (find : Lookup) (h : Host) (r : Request) : Host × Response :=
  match r.loadPath with
  | .error status => (h, .bare status)
  | .ok path =>
      match FileSource.open find path with
      | .error cause => (h, .refuse (.ofOpening path cause))
      | .ok source => h.answer find (.loadFile source)

/-- Lists the lines. -/
def Host.listLines (h : Host) : Response :=
  match h.loaded with
  | .error error => .refuse (.ofError error)
  | .ok log =>
      .json 200 (.object [("lines", .array (log.lines.map Log.Line.toValue))])

/-- Reads the forecasts of a line. -/
def Host.lineForecast (find : Lookup) (h : Host) (segment : String) :
    Host × Response :=
  match readIndex? segment with
  | none => (h, .bare 400)
  | some index =>
      match h.line index with
      | .error error => (h, .refuse (.ofError error))
      | .ok line => h.answer find (.forecastInfo line)

/-- Ranks the trips. -/
def Host.interestingTrips (find : Lookup) (h : Host) : Host × Response :=
  match h.loaded with
  | .error error => (h, .refuse (.ofError error))
  | .ok _ => h.answer find .interestingTrips

/-- Answers a request about something that is there and may be asked for in
this way. -/
def Host.follow (find : Lookup) (h : Host) (r : Request) :
    Route → Host × Response
  | .health => (h, ⟨200, some ⟨plainType, "ok"⟩⟩)
  | .fileLoad => h.load find r
  | .lines => (h, h.listLines)
  | .lineForecast segment => h.lineForecast find segment
  | .interestingTrips => h.interestingTrips find

/-- An answer without its text. -/
def Response.head (r : Response) : Response :=
  { r with content := r.content.map fun c => { c with text := "" } }

/-- Answers a request. -/
def Host.respond (find : Lookup) (h : Host) (r : Request) : Host × Response :=
  match Route.of? r.target with
  | none => (h, .bare 404)
  | some route =>
      if route.allows r.method then
        let (h, response) := h.follow find r route
        (h, if r.method = "HEAD" then response.head else response)
      else (h, .bare 405)

end Ridership.Server

import Ridership.Server.Http
import Ridership.Text.Blank

/-!
# Requests and answers as messages

A message is a head of lines, an empty line, and a body whose length the
head tells. Of the head of a request only its first line and two of its
fields matter here; the names of fields are the same in either case of
letters.
-/

namespace Ridership.Server

/-- What the head of a request says. -/
structure Head where
  method : String
  target : String
  contentType : Option String
  /-- The bytes of the body behind the head. -/
  bodyLength : Nat
  deriving DecidableEq, Repr

/-- The value of a field, from the first of the lines that has its name. -/
def fieldValue? (name : String) (lines : List String) : Option String :=
  lines.findSome? fun line =>
    match line.toList.span (· ≠ ':') with
    | (found, ':' :: value) =>
        if found.map Char.toLower = name.toList then
          some (String.ofList (Text.trimmed value))
        else none
    | _ => none

/-- Reads the lines of a head. A length that does not read is none. -/
def Head.ofLines? : List String → Option Head
  | [] => none
  | first :: fields =>
      match first.splitOn " " with
      | [method, target, _] =>
          some {
            method, target
            contentType := fieldValue? "content-type" fields
            bodyLength :=
              (fieldValue? "content-length" fields).bind String.toNat?
                |>.getD 0 }
      | _ => none

/-- The request of a head and the body behind it. -/
def Head.request (h : Head) (body : List UInt8) : Request :=
  { method := h.method, target := h.target, contentType := h.contentType, body }

/-- A status in words. -/
def statusWords : Nat → String
  | 200 => "OK"
  | 400 => "Bad Request"
  | 404 => "Not Found"
  | 405 => "Method Not Allowed"
  | 409 => "Conflict"
  | 413 => "Payload Too Large"
  | 415 => "Unsupported Media Type"
  | 422 => "Unprocessable Entity"
  | _ => "Internal Server Error"

/-- An answer as a message. -/
def Response.message (r : Response) : String :=
  let text := (r.content.map Content.text).getD ""
  let type := match r.content with
    | some content => s!"content-type: {content.type}\r\n"
    | none => ""
  s!"HTTP/1.1 {r.status} {statusWords r.status}\r\n{type}"
    ++ s!"content-length: {text.utf8ByteSize}\r\n\r\n{text}"

end Ridership.Server

/-!
# Media types

A request says with its media type that its body is JSON. The type is read
as a whole, parameters included, for one that does not read says nothing.
-/

namespace Ridership.Server

/-- Whether a character may stand in a name or in an unquoted value. -/
def isTokenChar (c : Char) : Bool :=
  c.isAlphanum || "!#$%&'*+-.^_`|~".toList.contains c

/-- Whether a character may stand in a quoted value: a space, or one of ASCII
that is seen. -/
def isQuotedChar (c : Char) : Bool :=
  0x20 ≤ c.toNat && c.toNat < 0x7F

/-- Reads a parameter's value behind the equals sign; gives what follows it and
its semicolon. A quoted value has one character at least, and the first may be
a quote. -/
def behindValue? : List Char → Option (List Char)
  | '"' :: first :: rest =>
      match rest.dropWhile fun c => isQuotedChar c && c ≠ '"' with
      | '"' :: behind =>
          if isQuotedChar first then
            match behind.dropWhile (· = ' ') with
            | [] => some []
            | ';' :: more => some more
            | _ => none
          else none
      | _ => none
  | text =>
      match text.dropWhile isTokenChar with
      | [] => some []
      | ';' :: more =>
          if (text.takeWhile isTokenChar).isEmpty then none else some more
      | _ => none

/-- Whether the parameters behind a semicolon read. There is a round for each
of them. -/
def parametersRead : Nat → List Char → Bool
  | 0, _ => false
  | rounds + 1, text =>
      match text.dropWhile (· = ' ') with
      | [] => true
      | text =>
          let name := text.takeWhile isTokenChar
          match text.dropWhile isTokenChar with
          | '=' :: value =>
              if name.isEmpty then false
              else
                match behindValue? value with
                | some rest => parametersRead rounds rest
                | none => false
          | _ => false

/-- The part of a name before its last plus and the suffix behind it. A plus in
front is part of the name. -/
def splitSuffix (name : List Char) : List Char × Option (List Char) :=
  if name.tail.contains '+' then
    let suffix := (name.reverse.takeWhile (· ≠ '+')).reverse
    (name.take (name.length - suffix.length - 1), some suffix)
  else (name, none)

/-- Whether a media type is JSON: `application/json`, or an application's type
with the suffix `json`. -/
def isJsonType (text : String) : Bool :=
  let chars := text.toList
  let kind := chars.takeWhile isTokenChar
  match chars.dropWhile isTokenChar with
  | '/' :: rest =>
      let subkind := rest.takeWhile isTokenChar
      let readsOn := match rest.dropWhile isTokenChar with
        | [] => true
        | ';' :: parameters =>
            !subkind.isEmpty
              && parametersRead (parameters.length + 1) parameters
        | _ => false
      let (base, suffix) := splitSuffix (subkind.map Char.toLower)
      let isJson := base = "json".toList || suffix = some "json".toList
      readsOn && kind.map Char.toLower = "application".toList && isJson
  | _ => false

end Ridership.Server

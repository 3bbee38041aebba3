import Ridership.Text.Printable

/-!
# Quoted texts in messages

A message quotes a text so that nothing in it can be mistaken: quotes,
backslashes and the common controls get their short escapes, and every other
character that does not show itself is given by its number.
-/

namespace Ridership.Text

/-- A character as it stands in a quoted text. -/
def quotedChar (c : Char) : String :=
  match c with
  | '\x00' => "\\0"
  | '\t' => "\\t"
  | '\r' => "\\r"
  | '\n' => "\\n"
  | '"' => "\\\""
  | '\\' => "\\\\"
  | c =>
      if showsItself c then String.singleton c
      else "\\u\x7b" ++ String.ofList (Nat.toDigits 16 c.toNat) ++ "\x7d"

/-- A text in quotes. -/
def quoted (text : String) : String :=
  "\"" ++ String.join (text.toList.map quotedChar) ++ "\""

end Ridership.Text

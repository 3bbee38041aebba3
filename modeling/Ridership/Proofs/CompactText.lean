import Ridership.Proofs.Literals

/-!
# A JSON text stands on one line

The text of a value is written behind whatever stands there already, and that
has no say in it: writing appends the value's own text and nothing else
(`Value.toList_write`). So the text of a container is put together from those of
its parts, and what no part and no separator holds the whole cannot hold.

A line end is such a thing. Inside a string it is escaped, between the parts of
a container nothing blank is written, and a number is digits with a few marks.
-/

namespace Ridership.Json

/-! ## Writing appends -/

theorem toList_foldl_push (out : String) (cs : List Char) :
    (cs.foldl String.push out).toList = out.toList ++ cs := by
  induction cs generalizing out with
  | nil => simp
  | cons c cs ih => rw [List.foldl_cons, ih, String.toList_push]; simp

theorem toList_writeChars (out : String) (cs : List Char) :
    (writeChars out cs).toList = out.toList ++ cs.flatMap escape := by
  induction cs generalizing out with
  | nil => simp [writeChars]
  | cons c cs ih => rw [writeChars, ih, toList_foldl_push]; simp

theorem toList_writeString (out s : String) :
    (writeString out s).toList
      = out.toList ++ '"' :: s.toList.flatMap escape ++ ['"'] := by
  rw [writeString, String.toList_push, toList_writeChars, String.toList_push]
  simp

mutual

/-- A value writes its own text behind what is there. -/
theorem Value.toList_write (out : String) (v : Value) :
    (v.write out).toList = out.toList ++ v.text.toList := by
  match v with
  | .null | .bool true | .bool false | .number _ | .array [] | .object [] =>
      simp [Value.text, Value.write]
  | .string s =>
      rw [Value.text, Value.write, Value.write, toList_writeString,
        toList_writeString]
      simp
  | .array (item :: rest) =>
      have hitem := fun start => Value.toList_write start item
      have hrest := fun start => toList_writeItems start rest
      rw [Value.text, Value.write, Value.write, String.toList_push,
        String.toList_push, hrest (item.write (out.push '[')),
        hrest (item.write (String.push "" '[')), hitem, hitem]
      simp
  | .object ((key, value) :: rest) =>
      have hvalue := fun start => Value.toList_write start value
      have hrest := fun start => toList_writeMembers start rest
      rw [Value.text, Value.write, Value.write, String.toList_push,
        String.toList_push, hrest (value.write _), hrest (value.write _),
        hvalue, hvalue, String.toList_push, String.toList_push,
        toList_writeString, toList_writeString]
      simp

theorem toList_writeItems (out : String) (items : List Value) :
    (writeItems out items).toList
      = out.toList ++ (writeItems "" items).toList := by
  match items with
  | [] => simp [writeItems]
  | item :: rest =>
      have hitem := fun start => Value.toList_write start item
      have hrest := fun start => toList_writeItems start rest
      rw [writeItems, writeItems, hrest (item.write (out.push ',')),
        hrest (item.write (String.push "" ',')), hitem, hitem]
      simp

theorem toList_writeMembers (out : String) (members : List (String × Value)) :
    (writeMembers out members).toList
      = out.toList ++ (writeMembers "" members).toList := by
  match members with
  | [] => simp [writeMembers]
  | (key, value) :: rest =>
      have hvalue := fun start => Value.toList_write start value
      have hrest := fun start => toList_writeMembers start rest
      rw [writeMembers, writeMembers, hrest (value.write _),
        hrest (value.write _), hvalue, hvalue, String.toList_push,
        String.toList_push, toList_writeString, toList_writeString]
      simp

end

/-! ## No line end is written -/

theorem hexDigit_ne_newline (n : Nat) : hexDigit n ≠ '\n' := by
  have hall : ∀ k < 16, Nat.digitChar k ≠ '\n' := by decide
  exact hall (n % 16) (by omega)

theorem newline_not_mem_escape (c : Char) : '\n' ∉ escape c := by
  unfold escape
  split
  case h_8 _ _ _ _ _ hnewline _ _ =>
    split
    · have hdigit := fun n => (hexDigit_ne_newline n).symm
      simp [hdigit]
    · intro hmem
      exact hnewline (List.mem_singleton.mp hmem).symm
  all_goals decide

theorem newline_not_mem_writeString (s : String) :
    '\n' ∉ '"' :: s.toList.flatMap escape ++ ['"'] := by
  have hchars : '\n' ∉ s.toList.flatMap escape := by
    intro hmem
    obtain ⟨c, -, hc⟩ := List.mem_flatMap.mp hmem
    exact newline_not_mem_escape c hc
  simp [hchars]

theorem newline_not_mem_literal {cs : List Char} (h : Decimal.IsLiteral cs) :
    '\n' ∉ cs := by
  intro hmem
  rcases h.mem_cases hmem with hd | heq | heq | heq | heq
  · exact absurd hd (by decide)
  all_goals exact absurd heq (by decide)

theorem Number.newline_not_mem_text (n : Number) : '\n' ∉ n.text.toList := by
  cases n with
  | whole n => exact newline_not_mem_literal (Number.isLiteral_whole n)
  | float x =>
      by_cases hx : x.isFinite = true
      · exact newline_not_mem_literal (Number.isLiteral_float hx)
      · rw [Number.text_of_not_isFinite hx]
        decide

mutual

/-- The text of a value stands on one line, whatever strings are in it. -/
theorem Value.newline_not_mem_text (v : Value) : '\n' ∉ v.text.toList := by
  match v with
  | .null | .bool true | .bool false | .array [] | .object [] => decide
  | .number n =>
      rw [Value.text, Value.write, String.toList_append]
      exact n.newline_not_mem_text
  | .string s =>
      rw [Value.text, Value.write, toList_writeString]
      exact newline_not_mem_writeString s
  | .array (item :: rest) =>
      have hitem := Value.newline_not_mem_text item
      have hrest := newline_not_mem_writeItems rest
      rw [Value.text, Value.write, String.toList_push, toList_writeItems,
        Value.toList_write]
      simp [hitem, hrest]
  | .object ((key, value) :: rest) =>
      have hkey := newline_not_mem_writeString key
      have hvalue := Value.newline_not_mem_text value
      have hrest := newline_not_mem_writeMembers rest
      rw [Value.text, Value.write, String.toList_push, toList_writeMembers,
        Value.toList_write, String.toList_push, toList_writeString]
      simp_all

theorem newline_not_mem_writeItems (items : List Value) :
    '\n' ∉ (writeItems "" items).toList := by
  match items with
  | [] => decide
  | item :: rest =>
      have hitem := Value.newline_not_mem_text item
      have hrest := newline_not_mem_writeItems rest
      rw [writeItems, toList_writeItems, Value.toList_write]
      simp [hitem, hrest]

theorem newline_not_mem_writeMembers (members : List (String × Value)) :
    '\n' ∉ (writeMembers "" members).toList := by
  match members with
  | [] => decide
  | (key, value) :: rest =>
      have hkey := newline_not_mem_writeString key
      have hvalue := Value.newline_not_mem_text value
      have hrest := newline_not_mem_writeMembers rest
      rw [writeMembers, toList_writeMembers, Value.toList_write,
        String.toList_push, toList_writeString]
      simp_all

end

/-- The text of an object begins with its bracket. -/
theorem Value.head?_text_object (members : List (String × Value)) :
    (Value.object members).text.toList.head? = some '\x7b' := by
  match members with
  | [] => rfl
  | (key, value) :: rest =>
      rw [Value.text, Value.write, String.toList_push, toList_writeMembers,
        Value.toList_write, String.toList_push, toList_writeString]
      simp

end Ridership.Json

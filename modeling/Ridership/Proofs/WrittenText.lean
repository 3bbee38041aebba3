import Ridership.Proofs.CompactText
import Ridership.Proofs.NumberText
import Ridership.Proofs.StringText
import Ridership.Proofs.TextTree

/-!
# A value that was written is read again

The text of a value has a tree, and it is the value's own: members in their
order, a key as often as it was written, numbers as their literals. A number
that has no literal is written as null, which is all that the text loses.

Reading goes in two steps, and so does the proof. The tokens of the text are
those of the tree (`Value.readAll_text`), whatever stands behind the value as
long as no number runs into it; and from the tokens of a tree the tree is read
again (`Tree.read_tokens`).
-/

namespace Ridership.Json

open Text.Utf8 (bytesOf bytesOf_append bytesOf_cons)

/-! ## The tree of a value -/

/-- A number as its literal, or as null without one. -/
def Number.toTree : Number → Tree
  | .whole n => .number (Number.whole n).text
  | .float x => if x.isFinite then .number (Number.float x).text else .null

mutual

/-- What the text of a value says. -/
def Value.toTree : Value → Tree
  | .null => .null
  | .bool b => .bool b
  | .number n => n.toTree
  | .string s => .string s
  | .array items => .array (Value.itemTrees items)
  | .object members => .object (Value.memberTrees members)

def Value.itemTrees : List Value → List Tree
  | [] => []
  | item :: rest => item.toTree :: Value.itemTrees rest

def Value.memberTrees : List (String × Value) → List (String × Tree)
  | [] => []
  | (key, value) :: rest => (key, value.toTree) :: Value.memberTrees rest

end

/-! ## The tokens of a tree -/

mutual

/-- The tokens of a tree, from the first to the last. -/
def Tree.tokens : Tree → List Token
  | .null => [.null]
  | .bool b => [.bool b]
  | .number literal => [.number literal]
  | .string text => [.string text]
  | .array [] => [.openArray, .closeArray]
  | .array (item :: rest) =>
      .openArray :: (item.tokens ++ Tree.moreItems rest)
  | .object [] => [.openObject, .closeObject]
  | .object ((key, value) :: rest) =>
      .openObject :: .string key :: .colon
        :: (value.tokens ++ Tree.moreMembers rest)

/-- The tokens behind an item: the items that are left, and the end. -/
def Tree.moreItems : List Tree → List Token
  | [] => [.closeArray]
  | item :: rest => .comma :: (item.tokens ++ Tree.moreItems rest)

/-- The tokens behind a member. -/
def Tree.moreMembers : List (String × Tree) → List Token
  | [] => [.closeObject]
  | (key, value) :: rest =>
      .comma :: .string key :: .colon
        :: (value.tokens ++ Tree.moreMembers rest)

end

/-- What is read off the front is `a`, and `rest` is behind it. -/
def Front.Is {α : Type} {tokens : List Token} (front : Front α tokens) (a : α)
    (rest : List Token) : Prop :=
  ∃ h, front = some (a, ⟨rest, h⟩)

theorem Tree.exists_tokens_cons (t : Tree) : ∃ first more,
    t.tokens = first :: more ∧ first ≠ .closeArray := by
  match t with
  | .null | .bool _ | .number _ | .string _ | .array [] | .object [] =>
      exact ⟨_, _, rfl, by simp⟩
  | .array (_ :: _) | .object (_ :: _) => exact ⟨_, _, rfl, by simp⟩

section

variable {tokens rest : List Token} {t : Tree} {items : List Tree}
  {key : String} {members : List (String × Tree)}

theorem Tree.readItems_comma (ht : Front.Is (Tree.read tokens) t (.comma :: rest))
    {more : List Token} (hitems : Front.Is (Tree.readItems rest) items more) :
    Front.Is (Tree.readItems tokens) (t :: items) more := by
  obtain ⟨h, ht⟩ := ht
  obtain ⟨h', hitems⟩ := hitems
  refine ⟨Nat.lt_trans h' (Nat.lt_of_succ_lt h), ?_⟩
  rw [Tree.readItems, ht]
  simp only [hitems]

theorem Tree.readItems_close
    (ht : Front.Is (Tree.read tokens) t (.closeArray :: rest)) :
    Front.Is (Tree.readItems tokens) [t] rest := by
  obtain ⟨h, ht⟩ := ht
  refine ⟨Nat.lt_of_succ_lt h, ?_⟩
  rw [Tree.readItems, ht]

theorem Tree.readMembers_comma
    (ht : Front.Is (Tree.read tokens) t (.comma :: rest)) {more : List Token}
    (hmembers : Front.Is (Tree.readMembers rest) members more) :
    Front.Is (Tree.readMembers (.string key :: .colon :: tokens))
      ((key, t) :: members) more := by
  obtain ⟨h, ht⟩ := ht
  obtain ⟨h', hmembers⟩ := hmembers
  simp only [List.length_cons] at h
  refine ⟨by simp only [List.length_cons]; omega, ?_⟩
  rw [Tree.readMembers, ht]
  simp only [hmembers]

theorem Tree.readMembers_close
    (ht : Front.Is (Tree.read tokens) t (.closeObject :: rest)) :
    Front.Is (Tree.readMembers (.string key :: .colon :: tokens)) [(key, t)]
      rest := by
  obtain ⟨h, ht⟩ := ht
  simp only [List.length_cons] at h
  refine ⟨by simp only [List.length_cons]; omega, ?_⟩
  rw [Tree.readMembers, ht]

end

mutual

/-- The tokens of a tree are read as that tree, and nothing behind them. -/
theorem Tree.read_tokens (t : Tree) (rest : List Token) :
    Front.Is (Tree.read (t.tokens ++ rest)) t rest := by
  match t with
  | .null | .bool _ | .number _ | .string _ =>
      refine ⟨Nat.lt_succ_self _, ?_⟩
      simp [Tree.tokens, Tree.read]
  | .array [] | .object [] =>
      refine ⟨Nat.lt_succ_of_lt (Nat.lt_succ_self _), ?_⟩
      simp [Tree.tokens, Tree.read]
  | .array (item :: items) =>
      obtain ⟨first, more, hfirst, hne⟩ := item.exists_tokens_cons
      have hitem := Tree.read_tokens item (Tree.moreItems items ++ rest)
      have hitems := Tree.readItems_more items rest hitem
      rw [hfirst] at hitems
      obtain ⟨_, hitems⟩ := hitems
      have hread := Tree.read_array hne hitems
      rw [Tree.tokens, hfirst, List.cons_append, List.append_assoc]
      exact hread
  | .object ((key, value) :: members) =>
      have hvalue := Tree.read_tokens value (Tree.moreMembers members ++ rest)
      obtain ⟨_, hmembers⟩ := @Tree.readMembers_more members rest _ key _ hvalue
      have hread := Tree.read_object hmembers
      rw [Tree.tokens, List.cons_append, List.cons_append, List.cons_append,
        List.append_assoc]
      exact hread

theorem Tree.readItems_more (items : List Tree) (rest : List Token)
    {tokens : List Token} {item : Tree}
    (hitem : Front.Is (Tree.read tokens) item (Tree.moreItems items ++ rest)) :
    Front.Is (Tree.readItems tokens) (item :: items) rest := by
  match items with
  | [] => exact Tree.readItems_close hitem
  | next :: items =>
      have hnext := Tree.read_tokens next (Tree.moreItems items ++ rest)
      rw [Tree.moreItems, List.cons_append, List.append_assoc] at hitem
      exact Tree.readItems_comma hitem (Tree.readItems_more items rest hnext)

theorem Tree.readMembers_more (members : List (String × Tree))
    (rest : List Token) {tokens : List Token} {key : String} {value : Tree}
    (hvalue : Front.Is (Tree.read tokens) value
      (Tree.moreMembers members ++ rest)) :
    Front.Is (Tree.readMembers (.string key :: .colon :: tokens))
      ((key, value) :: members) rest := by
  match members with
  | [] => exact Tree.readMembers_close hvalue
  | (next, value') :: members =>
      have hnext := Tree.read_tokens value' (Tree.moreMembers members ++ rest)
      rw [Tree.moreMembers, List.cons_append, List.cons_append,
        List.cons_append, List.append_assoc] at hvalue
      exact Tree.readMembers_comma hvalue
        (Tree.readMembers_more members rest hnext)

end

/-! ## Single tokens -/

section

variable {rest : List UInt8} {tokens : List Token}

theorem behindBlanks_cons {b : UInt8}
    (hb : (b = 0x20 || b = 0x09 || b = 0x0A || b = 0x0D) = false) :
    behindBlanks (b :: rest) = b :: rest := by
  rw [behindBlanks, List.dropWhile_cons, hb]
  rfl

theorem readAll_mark {b : UInt8} {t : Token}
    (hb : (b = 0x20 || b = 0x09 || b = 0x0A || b = 0x0D) = false)
    (ht : Token.read true b rest = .token t 0)
    (h : Token.readAll rest = some tokens) :
    Token.readAll (b :: rest) = some (t :: tokens) :=
  Token.readAll_cons (behindBlanks_cons hb) ht h

/-- A string as it stands in a text. -/
def quotedChars (s : String) : List Char :=
  '"' :: s.toList.flatMap escape ++ ['"']

theorem Token.readAll_string (s : String)
    (h : Token.readAll rest = some tokens) :
    Token.readAll (bytesOf (quotedChars s) ++ rest)
      = some (.string s :: tokens) := by
  have hbytes : bytesOf (quotedChars s) ++ rest
      = 0x22 :: (bytesOf (s.toList.flatMap escape) ++ 0x22 :: rest) := by
    rw [quotedChars, bytesOf_append, List.append_assoc]
    rfl
  rw [hbytes]
  refine Token.readAll_cons (behindBlanks_cons rfl)
    (Token.readString_escaped s rest) ?_
  rw [← h]
  congr 1
  simp [Nat.add_comm 1]

theorem ne_of_number_first {b k : UInt8} (h : b = 0x2D ∨ isDigit b = true)
    (hsign : k ≠ 0x2D) (hdigit : isDigit k = false) : b ≠ k := by
  rintro rfl
  rcases h with h | h
  · exact hsign h
  · exact absurd h (by simp [hdigit])

theorem behindBlanks_number {b : UInt8} (h : b = 0x2D ∨ isDigit b = true) :
    behindBlanks (b :: rest) = b :: rest := by
  apply behindBlanks_cons
  have hne {k : UInt8} (hsign : k ≠ 0x2D) (hdigit : isDigit k = false) :
      decide (b = k) = false :=
    decide_eq_false (ne_of_number_first h hsign hdigit)
  rw [hne (by decide) rfl, hne (by decide) rfl, hne (by decide) rfl,
    hne (by decide) rfl]
  rfl

theorem Token.readAll_literal {cs : List Char} (hcs : Decimal.IsLiteral cs)
    (hrest : EndsValue rest) (h : Token.readAll rest = some tokens) :
    Token.readAll (bytesOf cs ++ rest)
      = some (.number (String.ofList cs) :: tokens) := by
  obtain ⟨b, more, hb, hfirst⟩ := exists_byte_literal hcs
  have hread := Token.readNumber_literal hcs hrest
  rw [hb, List.cons_append] at hread ⊢
  refine Token.readAll_cons (behindBlanks_number hfirst)
    ((Token.read_number hfirst true _).trans hread) ?_
  rw [List.length_cons, Nat.add_sub_cancel, List.drop_left]
  exact h

end

/-! ## Texts -/

theorem Value.toList_text_array (item : Value) (rest : List Value) :
    (Value.array (item :: rest)).text.toList
      = '[' :: (item.text.toList ++ (writeItems "" rest).toList ++ [']']) := by
  rw [Value.text, Value.write, String.toList_push, toList_writeItems,
    Value.toList_write]
  simp

theorem toList_writeItems_cons (item : Value) (rest : List Value) :
    (writeItems "" (item :: rest)).toList
      = ',' :: (item.text.toList ++ (writeItems "" rest).toList) := by
  rw [writeItems, toList_writeItems, Value.toList_write]
  simp

theorem Value.toList_text_object (key : String) (value : Value)
    (rest : List (String × Value)) :
    (Value.object ((key, value) :: rest)).text.toList
      = '\x7b' :: (quotedChars key ++ ':' :: (value.text.toList
          ++ (writeMembers "" rest).toList ++ ['\x7d'])) := by
  rw [Value.text, Value.write, String.toList_push, toList_writeMembers,
    Value.toList_write, String.toList_push, toList_writeString]
  simp [quotedChars]

theorem toList_writeMembers_cons (key : String) (value : Value)
    (rest : List (String × Value)) :
    (writeMembers "" ((key, value) :: rest)).toList
      = ',' :: (quotedChars key
          ++ ':' :: (value.text.toList ++ (writeMembers "" rest).toList)) := by
  rw [writeMembers, toList_writeMembers, Value.toList_write,
    String.toList_push, toList_writeString]
  simp [quotedChars]

theorem Number.readAll_text (n : Number) {rest : List UInt8}
    {tokens : List Token} (hrest : EndsValue rest)
    (h : Token.readAll rest = some tokens) :
    Token.readAll (bytesOf n.text.toList ++ rest)
      = some (n.toTree.tokens ++ tokens) := by
  have hliteral (text : String) (htext : Decimal.IsLiteral text.toList) :
      Token.readAll (bytesOf text.toList ++ rest)
        = some (.number text :: tokens) := by
    rw [Token.readAll_literal htext hrest h, String.ofList_toList]
  match n with
  | .whole n => exact hliteral _ (Number.isLiteral_whole n)
  | .float x =>
      rw [Number.toTree]
      by_cases hx : x.isFinite = true
      · rw [if_pos hx]
        exact hliteral _ (Number.isLiteral_float hx)
      · rw [if_neg hx, Number.text_of_not_isFinite hx]
        exact Token.readAll_cons (behindBlanks_cons rfl) rfl h

theorem endsValue_items (items : List Value) (rest : List UInt8) :
    EndsValue (bytesOf (writeItems "" items).toList ++ 0x5D :: rest) := by
  cases items with
  | nil => exact .inr ⟨0x5D, rest, rfl, .inr (.inl rfl)⟩
  | cons item items =>
      rw [toList_writeItems_cons]
      exact .inr ⟨0x2C, _, rfl, .inl rfl⟩

theorem endsValue_members (members : List (String × Value))
    (rest : List UInt8) :
    EndsValue (bytesOf (writeMembers "" members).toList ++ 0x7D :: rest) := by
  cases members with
  | nil => exact .inr ⟨0x7D, rest, rfl, .inr (.inr rfl)⟩
  | cons member members =>
      rw [toList_writeMembers_cons]
      exact .inr ⟨0x2C, _, rfl, .inl rfl⟩

mutual

/-- The tokens of a value's text are those of its tree. -/
theorem Value.readAll_text (v : Value) {rest : List UInt8}
    {tokens : List Token} (hrest : EndsValue rest)
    (h : Token.readAll rest = some tokens) :
    Token.readAll (bytesOf v.text.toList ++ rest)
      = some (v.toTree.tokens ++ tokens) := by
  match v with
  | .null => exact Token.readAll_cons (behindBlanks_cons rfl) rfl h
  | .bool true => exact Token.readAll_cons (behindBlanks_cons rfl) rfl h
  | .bool false => exact Token.readAll_cons (behindBlanks_cons rfl) rfl h
  | .number n => exact n.readAll_text hrest h
  | .string s =>
      rw [Value.text, Value.write, toList_writeString]
      exact Token.readAll_string s h
  | .array [] =>
      have hclose := @readAll_mark _ _ 0x5D .closeArray rfl rfl h
      exact @readAll_mark _ _ 0x5B .openArray rfl rfl hclose
  | .object [] =>
      have hclose := @readAll_mark _ _ 0x7D .closeObject rfl rfl h
      exact @readAll_mark _ _ 0x7B .openObject rfl rfl hclose
  | .array (item :: items) =>
      have hitems := readAll_moreItems items h
      have hitem := item.readAll_text (endsValue_items items rest) hitems
      have hopen := @readAll_mark _ _ 0x5B .openArray rfl rfl hitem
      rw [Value.toTree, Value.itemTrees, Tree.tokens, List.cons_append,
        List.append_assoc, ← hopen, Value.toList_text_array, bytesOf_cons,
        bytesOf_append, bytesOf_append, List.append_assoc, List.append_assoc,
        List.append_assoc]
      rfl
  | .object ((key, value) :: members) =>
      have hmembers := readAll_moreMembers members h
      have hvalue := value.readAll_text (endsValue_members members rest) hmembers
      have hcolon := @readAll_mark _ _ 0x3A .colon rfl rfl hvalue
      have hkey := Token.readAll_string key hcolon
      have hopen := @readAll_mark _ _ 0x7B .openObject rfl rfl hkey
      rw [Value.toTree, Value.memberTrees, Tree.tokens, List.cons_append,
        List.cons_append, List.cons_append, List.append_assoc, ← hopen,
        Value.toList_text_object, bytesOf_cons, bytesOf_append, bytesOf_cons,
        bytesOf_append, bytesOf_append]
      simp only [List.append_assoc]
      rfl

theorem readAll_moreItems (items : List Value) {rest : List UInt8}
    {tokens : List Token} (h : Token.readAll rest = some tokens) :
    Token.readAll (bytesOf (writeItems "" items).toList ++ 0x5D :: rest)
      = some (Tree.moreItems (Value.itemTrees items) ++ tokens) := by
  match items with
  | [] => exact @readAll_mark _ _ 0x5D .closeArray rfl rfl h
  | item :: items =>
      have hitems := readAll_moreItems items h
      have hitem := item.readAll_text (endsValue_items items rest) hitems
      have hcomma := @readAll_mark _ _ 0x2C .comma rfl rfl hitem
      rw [Value.itemTrees, Tree.moreItems, List.cons_append, List.append_assoc,
        ← hcomma, toList_writeItems_cons, bytesOf_cons, bytesOf_append,
        List.append_assoc, List.append_assoc]
      rfl

theorem readAll_moreMembers (members : List (String × Value))
    {rest : List UInt8} {tokens : List Token}
    (h : Token.readAll rest = some tokens) :
    Token.readAll (bytesOf (writeMembers "" members).toList ++ 0x7D :: rest)
      = some (Tree.moreMembers (Value.memberTrees members) ++ tokens) := by
  match members with
  | [] => exact @readAll_mark _ _ 0x7D .closeObject rfl rfl h
  | (key, value) :: members =>
      have hmembers := readAll_moreMembers members h
      have hvalue := value.readAll_text (endsValue_members members rest) hmembers
      have hcolon := @readAll_mark _ _ 0x3A .colon rfl rfl hvalue
      have hkey := Token.readAll_string key hcolon
      have hcomma := @readAll_mark _ _ 0x2C .comma rfl rfl hkey
      rw [Value.memberTrees, Tree.moreMembers, List.cons_append,
        List.cons_append, List.cons_append, List.append_assoc, ← hcomma,
        toList_writeMembers_cons, bytesOf_cons, bytesOf_append, bytesOf_cons,
        bytesOf_append]
      simp only [List.append_assoc]
      rfl

end

/-- No token begins like a byte order mark. -/
theorem behindMark_of_readAll {bytes : List UInt8} {tokens : List Token}
    (h : Token.readAll bytes = some tokens) : behindMark bytes = bytes := by
  rw [behindMark, if_neg]
  intro hmark
  match bytes with
  | [] => cases hmark
  | b :: rest =>
      obtain rfl : b = 0xEF := (List.cons.inj hmark).1
      have hblank : behindBlanks (0xEF :: rest) = 0xEF :: rest :=
        behindBlanks_cons rfl
      have hfault : Token.read true 0xEF rest = .fault (.strayByte 0xEF) 0 1 0 :=
        rfl
      rw [Token.readAll] at h
      split at h
      · next heq => rw [hblank] at heq; cases heq
      · next heq =>
          rw [hblank] at heq
          obtain ⟨rfl, rfl⟩ := List.cons.inj heq
          rw [hfault] at h
          cases h

/-- The text of a value has the tree of that value. -/
theorem Value.ofText?_text (v : Value) :
    Tree.ofText? (Text.Utf8.encode v.text) = some v.toTree := by
  have hbytes : Text.Utf8.encode v.text = bytesOf v.text.toList := rfl
  have htokens := v.readAll_text (.inl rfl) (Token.readAll_nil rfl)
  have htree := v.toTree.read_tokens []
  rw [List.append_nil, ← hbytes] at htokens
  rw [List.append_nil] at htokens htree
  obtain ⟨_, htree⟩ := htree
  simp [Tree.ofText?, behindMark_of_readAll htokens, htokens, htree]

end Ridership.Json

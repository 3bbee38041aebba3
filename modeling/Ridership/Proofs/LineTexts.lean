import Ridership.Log.Line
import Ridership.Proofs.RecordKeys

/-!
# The text of a line is read again

A line is told as an object of whole numbers, and whoever was told it may
give it back. The reader of such records walks over the text itself, so each
of its parts is followed over what was written for one member: the name to
its closing quote, the literal to the comma or the bracket behind it.

All that a line has to do for that is to fit, and the same reader sees to
it: no number gets past it that its field does not admit
(`readRecord_admitted`).
-/

namespace Ridership.Json

open Decimal (IsLiteral Numeral foldl_toDigits leadingDigits_digits
  leadingSign toDigits_isDigit toList_repr)
open Text.Utf8 (bytesOf bytesOf_append bytesOf_cons)

/-! ## Names -/

section

variable {rest before : List UInt8}

theorem readQuoted_plain {bytes : List UInt8}
    (h : ∀ b ∈ bytes, b ≠ 0x22 ∧ b ≠ 0x5C ∧ ¬ b < 0x20) :
    readQuoted before (bytes ++ rest)
      = readQuoted (bytes.reverse ++ before) rest := by
  induction bytes generalizing before with
  | nil => rfl
  | cons b bytes ih =>
      obtain ⟨hquote, hslash, hcontrol⟩ := h b List.mem_cons_self
      rw [List.cons_append, readQuoted.eq_def]
      simp only [if_neg hquote, if_neg hslash, if_neg hcontrol]
      rw [ih fun d hd => h d (List.mem_cons_of_mem b hd)]
      simp

theorem encodedBehind_eq (c : Char) :
    encodedBehind c = (bytesOf [c]).reverse := by
  simp [encodedBehind, Text.Utf8.encode]

/-- A character as it was written is taken up as it is. -/
theorem readQuoted_escape (c : Char) :
    readQuoted before (bytesOf (escape c) ++ rest)
      = readQuoted (encodedBehind c ++ before) rest := by
  have hletter {letter : UInt8} {c : Char} (hu : letter ≠ 0x75)
      (hescape : simpleEscape? letter = some c) :
      readQuoted before ([0x5C, letter] ++ rest)
        = readQuoted (encodedBehind c ++ before) rest := by
    show readQuoted before (0x5C :: letter :: rest) = _
    rw [readQuoted.eq_def]
    simp [hu, hescape]
  unfold escape
  split
  case h_8 hquote hslash _ _ _ _ _ =>
    by_cases hcontrol : c.toNat < 0x20
    · obtain ⟨d₃, d₄, hbytes, hunit, hsurrogate⟩ :=
        StringState.Spells.control_digits _ hcontrol
      rw [if_pos hcontrol, hbytes]
      show readQuoted before (0x5C :: 0x75 :: 0x30 :: 0x30 :: d₃ :: d₄ :: rest)
        = _
      rw [readQuoted.eq_def]
      simp [hunit, hsurrogate]
    · rw [if_neg hcontrol, encodedBehind_eq]
      apply readQuoted_plain
      rw [bytesOf_cons, Text.Utf8.bytesOf_nil, List.append_nil]
      exact StringState.Spells.plain_bytes hquote hslash hcontrol
  all_goals exact hletter (by decide) rfl

theorem readQuoted_escapes (cs : List Char) :
    readQuoted before (bytesOf (cs.flatMap escape) ++ rest)
      = readQuoted ((bytesOf cs).reverse ++ before) rest := by
  induction cs generalizing before with
  | nil => rfl
  | cons c cs ih =>
      rw [List.flatMap_cons, bytesOf_append, List.append_assoc,
        readQuoted_escape, ih, encodedBehind_eq, ← List.append_assoc,
        ← List.reverse_append, ← bytesOf_append]
      rfl

/-- A string that was written is read again. -/
theorem readQuoted_written (s : String) :
    readQuoted [] (bytesOf (s.toList.flatMap escape) ++ 0x22 :: rest)
      = .ok (s, rest) := by
  rw [readQuoted_escapes, readQuoted.eq_def]
  simp [Text.Utf8.decode_bytesOf]

end

/-! ## Whole numbers -/

theorem absorb_digits {digits : List Nat} {n : Nat}
    (h : digits.foldl (fun n d => n * 10 + d) n < widthSize 64) :
    absorb n digits = (digits.foldl (fun n d => n * 10 + d) n, []) := by
  induction digits generalizing n with
  | nil => rfl
  | cons d digits ih =>
      have hgrow (digits : List Nat) (n : Nat) :
          n ≤ digits.foldl (fun n d => n * 10 + d) n := by
        induction digits generalizing n with
        | nil => exact Nat.le_refl n
        | cons d digits ih =>
            have := ih (n * 10 + d)
            rw [List.foldl_cons]
            omega
      rw [List.foldl_cons] at h ⊢
      rw [absorb, if_pos (Nat.lt_of_le_of_lt (hgrow digits _) h), ih h]

theorem absorb_toDigits {n : Nat} (h : n < widthSize 64) :
    absorb 0 ((Nat.toDigits 10 n).map fun c => c.toNat - '0'.toNat)
      = (n, []) := by
  have hvalue := foldl_toDigits n
  rw [absorb_digits (by rwa [hvalue]), hvalue]

theorem read?_toDigits {negative : Bool} {text : List Char} {n : Nat}
    (h : leadingSign text = (negative, Nat.toDigits 10 n)) :
    Numeral.read? text = some
      { negative, whole := (Nat.toDigits 10 n).map fun c => c.toNat - '0'.toNat
        fraction := [], exponent := none } := by
  have hsome : ((Nat.toDigits 10 n).map fun c => c.toNat - '0'.toNat).isEmpty
      = false := by
    simp [Nat.toDigits_ne_nil]
  rw [Numeral.read?, h]
  dsimp only
  rw [leadingDigits_digits (toDigits_isDigit n)]
  dsimp only
  rw [hsome]
  rfl

theorem leadingSign_toDigits (n : Nat) :
    leadingSign (Nat.toDigits 10 n) = (false, Nat.toDigits 10 n) := by
  have hdigits := toDigits_isDigit n
  unfold leadingSign
  split
  · next heq => exact absurd (hdigits '-' (by simp [heq])) (by decide)
  · next heq => exact absurd (hdigits '+' (by simp [heq])) (by decide)
  · rfl

/-- The literal of a whole number stands for that number if it has 64 bits, with
or without a sign. -/
theorem Number.ofLiteral?_whole {n : Int}
    (h : fitsUnsigned 64 n ∨ fitsSigned 64 n) :
    Number.ofLiteral? (Number.whole n).text = some (.whole n) := by
  have h64 : widthSize 64 = 2 ^ 64 := rfl
  have h63 : widthSize 63 = 2 ^ 63 := rfl
  simp only [fitsUnsigned, fitsSigned, Bool.and_eq_true, decide_eq_true_eq,
    Nat.reduceSub, h64, h63] at h
  cases n with
  | ofNat n =>
      rw [Int.ofNat_eq_natCast] at h
      have hn : n < widthSize 64 := by omega
      show (Numeral.read? (toString n).toList).bind Number.ofNumeral? = _
      rw [toList_repr, read?_toDigits (leadingSign_toDigits n), Option.bind_some,
        Number.ofNumeral?]
      dsimp only
      rw [absorb_toDigits hn]
      rfl
  | negSucc n =>
      have hn : n + 1 ≤ widthSize 63 := by omega
      show (Numeral.read? ("-" ++ toString (n + 1)).toList).bind
        Number.ofNumeral? = _
      have hread : Numeral.read? ('-' :: Nat.toDigits 10 (n + 1)) = _ :=
        read?_toDigits rfl
      rw [String.toList_append, toList_repr]
      refine (congrArg (Option.bind · Number.ofNumeral?) hread).trans ?_
      rw [Option.bind_some, Number.ofNumeral?]
      dsimp only
      rw [absorb_toDigits (by omega)]
      dsimp only
      rw [if_neg (by decide), if_neg (by decide),
        if_pos ⟨Nat.succ_pos n, hn⟩]
      rfl

/-! ## Fields -/

section

variable {rest : List UInt8} (hrest : EndsValue rest)

include hrest

theorem readLiteral_written {cs : List Char} (h : IsLiteral cs) :
    readLiteral (bytesOf cs ++ rest) = .ok (String.ofList cs, rest) := by
  have hdigit : ¬ rest.head?.any isDigit = true := by
    cases rest with
    | nil => simp
    | cons b more => simpa using hrest.noDigit b rfl
  rw [readLiteral, NumberSpan.of_read h hrest]
  dsimp only
  rw [List.take_left, List.drop_left, asciiText_literal h,
    if_neg fun hzero => hdigit hzero.2]

/-- A whole number that its field admits is read again. -/
theorem FieldKind.read_written {kind : FieldKind} {n : Int}
    (h : kind.admits n = true) :
    kind.read (bytesOf (Value.number (.whole n)).text.toList ++ rest)
      = .ok (.number (.whole n), rest) := by
  have hfits : fitsUnsigned 64 n ∨ fitsSigned 64 n := by
    cases kind with
    | text => cases h
    | natural => exact .inl h
    | integerOrNull => exact .inr h
  have htext : (Value.number (.whole n)).text = (Number.whole n).text := by
    rw [Value.text, Value.write, String.empty_append]
  have hliteral := Number.isLiteral_whole n
  have hread := readLiteral_written hrest hliteral
  rw [String.ofList_toList] at hread
  obtain ⟨b, more, hb, hfirst⟩ := exists_byte_literal hliteral
  have hquote : b ≠ 0x22 := ne_of_number_first hfirst (by decide) rfl
  have hnull : b ≠ 0x6E := ne_of_number_first hfirst (by decide) rfl
  rw [htext]
  rw [hb, List.cons_append] at hread ⊢
  rw [FieldKind.read, behindBlanks_number hfirst]
  split
  · next heq => exact absurd (List.cons.inj heq).1 hquote
  · next heq => exact absurd (List.cons.inj heq).1 hnull
  · rw [hread]
    dsimp only
    rw [Number.ofLiteral?_whole hfits]
    dsimp only
    rw [if_pos h]

end

/-! ## Members -/

/-- Members that are whole numbers. -/
def wholeMembers (numbers : List (String × Int)) : List (String × Value) :=
  numbers.map fun m => (m.1, .number (.whole m.2))

/-- There is a field for a number of that name, and it admits the number. -/
def Admits (fields : List Field) (m : String × Int) : Prop :=
  ∃ field, fieldNamed? fields m.1 = some field ∧ field.kind.admits m.2 = true

theorem member?_eq_none {name : String} {members : List (String × Value)}
    (h : name ∉ members.map Prod.fst) : member? name members = none := by
  rw [member?, Option.map_eq_none_iff, List.find?_eq_none]
  intro m hm
  rw [decide_eq_true_eq]
  exact fun heq => h (List.mem_map.mpr ⟨m, hm, heq⟩)

section

variable {fields : List Field} {rest : List UInt8}

/-- A member is read up to the mark behind its number. -/
theorem readMembers_member {skipRounds : Nat} {m : String × Int}
    {found : List (String × Value)} {rounds : Nat} (hadmits : Admits fields m)
    (hnew : m.1 ∉ found.map Prod.fst) (hrest : EndsValue rest) :
    readMembers fields skipRounds found
        (bytesOf (quotedChars m.1 ++ ':' ::
          (Value.number (.whole m.2)).text.toList) ++ rest) (rounds + 1)
      = match behindBlanks rest with
        | 0x7D :: rest => .ok (found ++ wholeMembers [m], rest)
        | 0x2C :: rest =>
            readMembers fields skipRounds (found ++ wholeMembers [m]) rest rounds
        | _ => .error .malformed := by
  obtain ⟨field, hfield, hadmit⟩ := hadmits
  have hname := @readQuoted_written
    (0x3A :: (bytesOf (Value.number (.whole m.2)).text.toList ++ rest)) m.1
  have hvalue := FieldKind.read_written hrest hadmit
  have hbytes : bytesOf (quotedChars m.1 ++ ':' ::
        (Value.number (.whole m.2)).text.toList) ++ rest
      = 0x22 :: (bytesOf (m.1.toList.flatMap escape) ++ 0x22 ::
        0x3A :: (bytesOf (Value.number (.whole m.2)).text.toList ++ rest)) := by
    simp only [quotedChars, bytesOf_append, bytesOf_cons, List.append_assoc,
      List.cons_append]
    rfl
  have hbehind {bytes : List UInt8} :
      behindBlanks (0x22 :: bytes) = 0x22 :: bytes ∧
      behindBlanks (0x3A :: bytes) = 0x3A :: bytes :=
    ⟨behindBlanks_cons rfl, behindBlanks_cons rfl⟩
  rw [hbytes, readMembers, hbehind.1]
  split
  case h_2 hne => exact absurd rfl (hne _)
  case h_1 heq =>
    obtain ⟨-, rfl⟩ := List.cons.inj heq
    rw [hname]
    dsimp only [bind, Except.bind]
    rw [hfield, member?_eq_none hnew, if_neg (by simp), hbehind.2]
    split
    case h_2 hne => exact absurd rfl (hne _)
    case h_1 heq =>
      obtain ⟨-, rfl⟩ := List.cons.inj heq
      dsimp only
      rw [hvalue]
      rfl

theorem length_le_writeMembers (members : List (String × Value)) :
    members.length ≤ (bytesOf (writeMembers "" members).toList).length := by
  induction members with
  | nil => exact Nat.zero_le _
  | cons m members ih =>
      rw [toList_writeMembers_cons]
      simp only [bytesOf_append, bytesOf_cons, List.length_append,
        List.length_cons]
      have hcomma : (String.utf8EncodeChar ',').length = 1 := rfl
      omega

/-- Members that were written are read again. -/
theorem readMembers_written {skipRounds : Nat} (m : String × Int)
    (more : List (String × Int)) {found : List (String × Value)} {rounds : Nat}
    (hadmits : ∀ x ∈ m :: more, Admits fields x)
    (hnew : (found.map Prod.fst ++ (m :: more).map Prod.fst).Nodup)
    (hrounds : more.length < rounds) :
    readMembers fields skipRounds found
        (bytesOf (quotedChars m.1 ++ ':' ::
          (Value.number (.whole m.2)).text.toList)
          ++ (bytesOf (writeMembers "" (wholeMembers more)).toList
            ++ 0x7D :: rest)) rounds
      = .ok (found ++ wholeMembers (m :: more), rest) := by
  have hm : m.1 ∉ found.map Prod.fst := fun hmem =>
    List.disjoint_of_nodup_append hnew hmem List.mem_cons_self
  cases rounds with
  | zero => exact absurd hrounds (Nat.not_lt_zero _)
  | succ rounds =>
  rw [readMembers_member (hadmits m List.mem_cons_self) hm
    (endsValue_members _ rest)]
  match more with
  | [] => rfl
  | x :: more =>
      have hmore := @readMembers_written skipRounds x more
        (found ++ wholeMembers [m]) rounds
        (fun y hy => hadmits y (List.mem_cons_of_mem m hy))
        (by simpa [wholeMembers] using hnew) (Nat.lt_of_succ_lt_succ hrounds)
      have hwritten : bytesOf (writeMembers "" (wholeMembers (x :: more))).toList
            ++ 0x7D :: rest
          = 0x2C :: (bytesOf (quotedChars x.1 ++ ':' ::
              (Value.number (.whole x.2)).text.toList)
            ++ (bytesOf (writeMembers "" (wholeMembers more)).toList
              ++ 0x7D :: rest)) := by
        show bytesOf (writeMembers "" (_ :: wholeMembers more)).toList ++ _ = _
        rw [toList_writeMembers_cons]
        simp only [bytesOf_cons, bytesOf_append, List.append_assoc]
        rfl
      rw [hwritten, behindBlanks_cons rfl]
      rw [List.append_assoc] at hmore
      exact hmore

theorem member?_isSome {name : String} {members : List (String × Value)}
    (h : name ∈ members.map Prod.fst) :
    (member? name members).isSome = true := by
  obtain ⟨m, hm, rfl⟩ := List.mem_map.mp h
  rw [member?, Option.isSome_map, List.find?_isSome]
  exact ⟨m, hm, decide_eq_true rfl⟩

theorem readRecord_written (m : String × Int) (more : List (String × Int))
    (hadmits : ∀ x ∈ m :: more, Admits fields x)
    (hnames : ((m :: more).map Prod.fst).Nodup)
    (hrequired : ∀ field ∈ fields,
      field.optional = true ∨ field.name ∈ (m :: more).map Prod.fst) :
    readRecord fields
        (bytesOf (Value.object (wholeMembers (m :: more))).text.toList ++ rest)
      = .ok (wholeMembers (m :: more), rest) := by
  have hkeys : (wholeMembers (m :: more)).map Prod.fst
      = (m :: more).map Prod.fst := by
    rw [wholeMembers, List.map_map]
    rfl
  have hall : (fields.all fun field => field.optional ||
      (member? field.name (wholeMembers (m :: more))).isSome) = true := by
    rw [List.all_eq_true]
    intro field hfield
    rw [Bool.or_eq_true]
    refine (hrequired field hfield).imp_right fun hname => ?_
    exact member?_isSome (hkeys ▸ hname)
  have hread := fun skipRounds rounds hrounds =>
    @readMembers_written fields rest skipRounds m more [] rounds hadmits hnames
      hrounds
  have hlength := length_le_writeMembers (wholeMembers more)
  have htext : bytesOf (Value.object (wholeMembers (m :: more))).text.toList
      ++ rest
    = 0x7B :: (bytesOf (quotedChars m.1 ++ ':' ::
          (Value.number (.whole m.2)).text.toList)
          ++ (bytesOf (writeMembers "" (wholeMembers more)).toList
            ++ 0x7D :: rest)) := by
    show bytesOf (Value.object (_ :: wholeMembers more)).text.toList ++ _ = _
    rw [Value.toList_text_object]
    simp only [bytesOf_cons, bytesOf_append, List.append_assoc]
    rfl
  rw [htext, readRecord, behindBlanks_cons rfl]
  split
  case h_1 heq =>
    obtain ⟨-, rfl⟩ := List.cons.inj heq
    rw [show behindBlanks (bytesOf (quotedChars m.1 ++ _) ++ _) = _ from
      behindBlanks_cons rfl]
    split
    case h_1 heq => cases heq
    case h_2 =>
      rw [hread _ _ (by simp [wholeMembers] at hlength ⊢; omega)]
      dsimp only [bind, Except.bind]
      rw [List.nil_append, if_pos hall]
      rfl
  · next heq => cases heq
  · next hbrace _ => exact absurd rfl (hbrace _)

end

/-! ## What was read -/

theorem FieldKind.admits_of_read {kind : FieldKind} {bytes rest : List UInt8}
    {v : Value} (h : kind.read bytes = .ok (v, rest)) {n : Int}
    (hv : v = .number (.whole n)) : kind.admits n = true := by
  subst hv
  rw [FieldKind.read] at h
  split at h
  · split at h
    · cases hquoted : readQuoted [] _ with
      | error => rw [hquoted] at h; cases h
      | ok => rw [hquoted] at h; cases h
    · cases h
  · split at h
    · split at h <;> cases h
    · cases h
  · split at h
    · split at h
      · split at h
        · next hadmits =>
            cases h
            exact hadmits
        · cases h
      · cases h
      · cases h
    · cases h

/-- Every whole number among members is one that a field of its name admits. -/
def Admitted (fields : List Field) (members : List (String × Value)) : Prop :=
  ∀ name n, (name, Value.number (.whole n)) ∈ members →
    ∃ field ∈ fields, field.name = name ∧ field.kind.admits n = true

section

variable {fields : List Field} {found members : List (String × Value)}
  {bytes rest : List UInt8}

theorem Admitted.concat (h : Admitted fields found) {field : Field}
    (hfield : field ∈ fields) {v : Value}
    (hread : field.kind.read bytes = .ok (v, rest)) :
    Admitted fields (found ++ [(field.name, v)]) := by
  intro name n hmem
  rcases List.mem_append.mp hmem with hmem | hmem
  · exact h name n hmem
  · obtain ⟨rfl, rfl⟩ := Prod.mk.inj (List.mem_singleton.mp hmem)
    exact ⟨field, hfield, rfl, FieldKind.admits_of_read hread rfl⟩

theorem fieldNamed?_some {name : String} {field : Field}
    (h : fieldNamed? fields name = some field) :
    field ∈ fields ∧ field.name = name := by
  rw [fieldNamed?] at h
  have hname := List.find?_some h
  exact ⟨List.mem_of_find?_eq_some h, of_decide_eq_true hname⟩

theorem readMembers_admitted {skipRounds rounds : Nat}
    (hfound : Admitted fields found)
    (h : readMembers fields skipRounds found bytes rounds
      = .ok (members, rest)) : Admitted fields members := by
  induction rounds generalizing found bytes with
  | zero => cases h
  | succ rounds ih =>
      rw [readMembers] at h
      split at h
      case h_2 => cases h
      case h_1 =>
        obtain ⟨⟨name, bytes⟩, hname, h⟩ := ok_of_bind h
        dsimp only at h
        split at h
        · cases h
        split at h
        case h_2 => cases h
        case h_1 =>
          have hbehind {found : List (String × Value)} {bytes : List UInt8}
              (hfound : Admitted fields found)
              (h : (match behindBlanks bytes with
                | 0x7D :: rest => .ok (found, rest)
                | 0x2C :: rest =>
                    readMembers fields skipRounds found rest rounds
                | _ => .error TextFault.malformed)
                  = Except.ok (members, rest)) :
              Admitted fields members := by
            split at h
            · cases h
              exact hfound
            · exact ih hfound h
            · cases h
          split at h
          · next field hfield =>
              obtain ⟨⟨v, bytes⟩, hread, h⟩ := ok_of_bind h
              obtain ⟨hmem, rfl⟩ := fieldNamed?_some hfield
              exact hbehind (hfound.concat hmem hread) h
          · obtain ⟨bytes, -, h⟩ := ok_of_bind h
            exact hbehind hfound h

theorem readItems_admitted {all : List Field} {begun : Bool}
    (hfields : ∀ field ∈ fields, field ∈ all) (hfound : Admitted all found)
    (h : readItems begun found fields bytes = .ok (members, rest)) :
    Admitted all members := by
  induction fields generalizing begun found bytes with
  | nil =>
      rw [readItems] at h
      split at h
      · cases h
        exact hfound
      · cases h
  | cons field fields ih =>
      have hmore := fun f hf => hfields f (List.mem_cons_of_mem field hf)
      rw [readItems] at h
      split at h
      · split at h
        · exact ih hmore hfound h
        · cases h
      · have hitem {next : List UInt8} {v : Value × List UInt8}
            (hread : field.kind.read next = .ok v)
            (h : readItems true (found ++ [(field.name, v.1)]) fields v.2
              = .ok (members, rest)) : Admitted all members :=
          ih hmore (hfound.concat (hfields field List.mem_cons_self) hread) h
        split at h
        · -- An item came before, so there is a comma to be passed.
          split at h
          · obtain ⟨next, -, h⟩ := ok_of_bind h
            dsimp only at h
            split at h
            · cases h
            · obtain ⟨v, hread, h⟩ := ok_of_bind h
              exact hitem hread h
          · cases h
        · obtain ⟨next, -, h⟩ := ok_of_bind h
          dsimp only at h
          split at h
          · cases h
          · obtain ⟨v, hread, h⟩ := ok_of_bind h
            exact hitem hread h

/-- No number gets into a record that its field does not admit. -/
theorem readRecord_admitted
    (h : readRecord fields bytes = .ok (members, rest)) :
    Admitted fields members := by
  have hnone : Admitted fields [] := fun _ _ hmem => absurd hmem List.not_mem_nil
  rw [readRecord] at h
  split at h
  · have hfound : ∀ {found : List (String × Value)} {more : List UInt8},
        Admitted fields found →
        (if (fields.all fun field =>
            field.optional || (member? field.name found).isSome) = true
          then Except.ok (found, more) else .error TextFault.mismatch)
            = .ok (members, rest) → Admitted fields members := by
      intro found more hfound h
      split at h
      · cases h
        exact hfound
      · cases h
    split at h
    · exact hfound hnone h
    · obtain ⟨⟨found, more⟩, hread, h⟩ := ok_of_bind h
      exact hfound (readMembers_admitted hnone hread) h
  · exact readItems_admitted (fun _ hf => hf) hnone h
  · cases h

end

end Ridership.Json

namespace Ridership.Log

open Json (Value wholeMembers)

/-! ## Lines -/

/-- The numbers of a line have the width of its fields. -/
structure Line.Fits (line : Line) : Prop where
  start : line.start < widthSize 64
  stop : line.stop < widthSize 64
  length : line.length < widthSize 64
  systemTime : ∀ t ∈ line.systemTime, fitsSigned 64 t = true

theorem wholeMember?_eq_some {name : String} {members : List (String × Value)}
    {n : Int} (h : wholeMember? name members = some n) :
    (name, Value.number (.whole n)) ∈ members := by
  rw [wholeMember?] at h
  split at h
  · next hm =>
      obtain rfl := Option.some.inj h
      exact Json.mem_of_member? hm
  · cases h

theorem Line.fits_of_ofText {text : List UInt8} {line : Line}
    (h : Line.ofText text = .ok line) : line.Fits := by
  obtain ⟨⟨members, rest⟩, hread, h⟩ := Json.ok_of_bind h
  have hadmitted := Json.readRecord_admitted hread
  have hnatural {name : String} {n : Int}
      (hname : name ∈ ["begin", "end", "length"])
      (hn : wholeMember? name members = some n) : n.toNat < widthSize 64 := by
    obtain ⟨field, hfield, rfl, hadmit⟩ :=
      hadmitted _ _ (wholeMember?_eq_some hn)
    have hkind : ∀ field ∈ fields, field.name ∈ ["begin", "end", "length"] →
        field.kind = .natural := by decide
    rw [hkind field hfield hname] at hadmit
    have hbounds : 0 ≤ n ∧ n < widthSize 64 := by
      simpa [Json.FieldKind.admits, fitsUnsigned] using hadmit
    omega
  have htime : ∀ t ∈ wholeMember? "systemTime" members,
      fitsSigned 64 t = true := by
    intro t ht
    obtain ⟨field, hfield, hname, ht⟩ :=
      hadmitted _ _ (wholeMember?_eq_some ht)
    have hkind : ∀ field ∈ fields, field.name = "systemTime" →
        field.kind = .integerOrNull := by decide
    rw [hkind field hfield hname] at ht
    exact ht
  dsimp only at h
  split at h
  · cases h
  split at h
  · next hstart hstop hlength =>
      obtain rfl := Except.ok.inj h
      exact ⟨hnatural (by decide) hstart, hnatural (by decide) hstop,
        hnatural (by decide) hlength, htime⟩
  · cases h

/-- The numbers of a line, by the names they are written with. -/
def Line.numbers (line : Line) : List (String × Int) :=
  [("begin", (line.start : Int)), ("end", (line.stop : Int)),
    ("length", (line.length : Int))]
    ++ line.systemTime.toList.map fun t => ("systemTime", t)

theorem Line.toValue_eq (line : Line) :
    line.toValue = .object (wholeMembers line.numbers) := by
  rw [Line.toValue, Line.numbers]
  cases line.systemTime with
  | none => rfl
  | some t => rfl

/-- A line that fits is read again from its text. -/
theorem Line.Fits.ofText_text {line : Line} (h : line.Fits) :
    Line.ofText (Text.Utf8.encode line.toValue.text) = .ok line := by
  obtain ⟨m, more, hnumbers⟩ : ∃ m more, line.numbers = m :: more :=
    ⟨_, _, rfl⟩
  have hread := @Json.readRecord_written Line.fields [] m more
  rw [← hnumbers, ← Line.toValue_eq, List.append_nil] at hread
  have hadmits : ∀ x ∈ line.numbers, Json.Admits fields x := by
    have hnatural {n : Nat} (hn : n < widthSize 64) :
        Json.FieldKind.natural.admits n = true := by
      simpa [Json.FieldKind.admits, fitsUnsigned] using hn
    refine List.forall_mem_append.mpr ⟨?_, ?_⟩
    · simp only [List.forall_mem_cons]
      exact ⟨⟨_, rfl, hnatural h.start⟩, ⟨_, rfl, hnatural h.stop⟩,
        ⟨_, rfl, hnatural h.length⟩, List.forall_mem_nil _⟩
    · rw [List.forall_mem_map]
      intro t ht
      exact ⟨_, rfl, h.systemTime t (Option.mem_toList.mp ht)⟩
  have hnames : (line.numbers.map Prod.fst).Sublist
      ["begin", "end", "length", "systemTime"] := by
    cases ht : line.systemTime with
    | none => simp [Line.numbers, ht]
    | some t => simp [Line.numbers, ht]
  have hrequired : ∀ field ∈ fields,
      field.optional = true ∨ field.name ∈ line.numbers.map Prod.fst := by
    simp [fields, Line.numbers]
  show Line.ofText (Text.Utf8.bytesOf line.toValue.text.toList) = _
  rw [Line.ofText, hread hadmits (hnames.nodup (by decide)) hrequired]
  dsimp only [bind, Except.bind]
  cases hline : line with
  | mk start stop length systemTime =>
  cases systemTime with
  | none => rfl
  | some t => rfl

end Ridership.Log

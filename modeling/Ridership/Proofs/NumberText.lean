import Ridership.Proofs.Literals
import Ridership.Proofs.TokenStable
import Ridership.Proofs.Utf8Text

/-!
# A number that was written is read again

A literal is read part by part, each up to where the next one begins, and
the last is ended by what stands behind a value: a comma, a bracket or
nothing. None of these goes on with a digit, a point or an exponent, so no
part takes more than its own.
-/

namespace Ridership.Json

open Decimal
open Text.Utf8 (bytesOf bytesOf_append bytesOf_cons digit_toNat toNat_byte
  toNat_byte_digit utf8EncodeChar_digit)

/-! ## Bytes of a literal -/

theorem isDigit_byte {c : Char} (h : c.isDigit = true) :
    isDigit (UInt8.ofNat c.toNat) = true := by
  rw [isDigit, Bool.and_eq_true, decide_eq_true_eq, decide_eq_true_eq,
    UInt8.le_iff_toNat_le, UInt8.le_iff_toNat_le, toNat_byte_digit h]
  exact digit_toNat h

theorem bytesOf_digit {c : Char} (h : c.isDigit = true) (cs : List Char) :
    bytesOf (c :: cs) = UInt8.ofNat c.toNat :: bytesOf cs := by
  rw [bytesOf_cons, utf8EncodeChar_digit h]
  rfl

/-- What stands behind a value: nothing, a comma, or the end of a container. -/
def EndsValue (rest : List UInt8) : Prop :=
  rest = [] ∨ ∃ b more, rest = b :: more ∧ (b = 0x2C ∨ b = 0x5D ∨ b = 0x7D)

/-- Bytes that do not go on with digits. -/
def NoDigit (rest : List UInt8) : Prop :=
  ∀ b ∈ rest.head?, isDigit b = false

section

variable {rest : List UInt8} {cs : List Char}

theorem EndsValue.noDigit (h : EndsValue rest) : NoDigit rest := by
  obtain rfl | ⟨b, more, rfl, hb⟩ := h
  · rintro _ ⟨⟩
  · rintro _ ⟨⟩
    rcases hb with rfl | rfl | rfl <;> rfl

theorem noDigit_exponent (h : IsExponent cs) (hrest : NoDigit rest) :
    NoDigit (bytesOf cs ++ rest) := by
  obtain rfl | ⟨sign, ds, rfl, -, -⟩ := h
  · exact hrest
  · rintro _ ⟨⟩
    rfl

theorem noDigit_fraction (h : IsFraction cs) (hrest : NoDigit rest) :
    NoDigit (bytesOf cs ++ rest) := by
  obtain rfl | ⟨ds, rfl, -⟩ := h
  · exact hrest
  · rintro _ ⟨⟩
    rfl

theorem isDigit_of_mem_bytesOf (h : ∀ c ∈ cs, c.isDigit = true) :
    ∀ b ∈ bytesOf cs, isDigit b = true := by
  intro b hb
  obtain ⟨c, hc, hb⟩ := List.mem_flatMap.mp hb
  rw [utf8EncodeChar_digit (h c hc), List.mem_singleton] at hb
  rw [hb]
  exact isDigit_byte (h c hc)

theorem takeWhile_digits (h : ∀ c ∈ cs, c.isDigit = true)
    (hrest : NoDigit rest) :
    (bytesOf cs ++ rest).takeWhile isDigit = bytesOf cs := by
  rw [List.takeWhile_append_of_pos (isDigit_of_mem_bytesOf h)]
  match rest with
  | [] => simp
  | b :: more => simp [hrest b rfl]

theorem dropWhile_digits (h : ∀ c ∈ cs, c.isDigit = true)
    (hrest : NoDigit rest) :
    (bytesOf cs ++ rest).dropWhile isDigit = rest := by
  rw [List.dropWhile_append_of_pos (isDigit_of_mem_bytesOf h)]
  match rest with
  | [] => rfl
  | b :: more => simp [hrest b rfl]

end

/-! ## Parts of a literal -/

namespace NumberSpan

variable {rest : List UInt8} {cs : List Char} {index : Nat}

theorem lastDigits_read (h : ∀ c ∈ cs, c.isDigit = true)
    (hrest : NoDigit rest) :
    lastDigits true index (bytesOf cs ++ rest)
      = .complete (index + (bytesOf cs).length) := by
  rw [lastDigits, if_neg (by simp), takeWhile_digits h hrest]

theorem exponent_read (h : IsExponent cs) (hrest : EndsValue rest) :
    exponent true index (bytesOf cs ++ rest)
      = .complete (index + (bytesOf cs).length) := by
  obtain rfl | ⟨sign, ds, rfl, hsign, hds⟩ := h
  · obtain rfl | ⟨b, more, rfl, hb⟩ := hrest
    · rfl
    · rcases hb with rfl | rfl | rfl <;> rfl
  · obtain ⟨d, ds, rfl⟩ := List.exists_cons_of_ne_nil hds.nonempty
    have hdigits := hds.digits
    have hlast := @lastDigits_read rest ds (index + 3)
      (fun c hc => hdigits c (List.mem_cons_of_mem d hc)) hrest.noDigit
    have hd := hdigits d List.mem_cons_self
    have hbytes (b : UInt8) (hb : b = 0x2B ∨ b = 0x2D) :
        exponent true index (0x65 :: b :: bytesOf (d :: ds) ++ rest)
          = .complete (index + (0x65 :: b :: bytesOf (d :: ds)).length) := by
      rw [bytesOf_digit hd]
      show exponent true index (0x65 :: b :: _ :: (bytesOf ds ++ rest)) = _
      rw [exponent, if_pos (.inl rfl), if_pos hb, if_pos (isDigit_byte hd),
        hlast, List.length_cons, List.length_cons, List.length_cons]
      congr 1
      omega
    rcases hsign with rfl | rfl
    · exact hbytes 0x2B (.inl rfl)
    · exact hbytes 0x2D (.inr rfl)

theorem fraction_of_head {bytes : List UInt8}
    (h : ∀ b ∈ bytes.head?, b ≠ 0x2E) :
    fraction true index bytes = exponent true index bytes := by
  match bytes with
  | [] => rfl
  | b :: more =>
      rw [fraction.eq_def]
      exact if_neg (h b rfl)

variable {part : List Char}

theorem fraction_read (hpart : IsFraction part) (h : IsExponent cs)
    (hrest : EndsValue rest) :
    fraction true index (bytesOf part ++ (bytesOf cs ++ rest))
      = .complete (index + (bytesOf (part ++ cs)).length) := by
  obtain rfl | ⟨ds, rfl, hds⟩ := hpart
  · have hhead : ∀ b ∈ (bytesOf cs ++ rest).head?, b ≠ 0x2E := by
      obtain rfl | ⟨sign, ds, rfl, -, -⟩ := h
      · obtain rfl | ⟨b, more, rfl, hb⟩ := hrest
        · rintro _ ⟨⟩
        · rintro _ ⟨⟩
          rcases hb with rfl | rfl | rfl <;> decide
      · rintro _ ⟨⟩
        decide
    exact (fraction_of_head hhead).trans (exponent_read h hrest)
  · obtain ⟨d, ds, rfl⟩ := List.exists_cons_of_ne_nil hds.nonempty
    have hd := hds.digits d List.mem_cons_self
    have hmore : ∀ c ∈ ds, c.isDigit = true := fun c hc =>
      hds.digits c (List.mem_cons_of_mem d hc)
    have hnext : NoDigit (bytesOf cs ++ rest) :=
      noDigit_exponent h hrest.noDigit
    have hbytes : bytesOf ('.' :: d :: ds)
        = 0x2E :: UInt8.ofNat d.toNat :: bytesOf ds := by
      rw [← bytesOf_digit hd]
      rfl
    rw [bytesOf_append, hbytes, List.cons_append, List.cons_append, fraction,
      if_pos rfl, if_pos (isDigit_byte hd), takeWhile_digits hmore hnext,
      dropWhile_digits hmore hnext, exponent_read h hrest]
    simp only [List.length_append, List.length_cons]
    congr 1
    omega

theorem integer_read {whole : List Char} (hwhole : IsWhole whole)
    (hpart : IsFraction part) (h : IsExponent cs) (hrest : EndsValue rest) :
    integer true index
        (bytesOf whole ++ (bytesOf part ++ (bytesOf cs ++ rest)))
      = .complete (index + (bytesOf (whole ++ part ++ cs)).length) := by
  obtain ⟨d, ds, rfl⟩ := List.exists_cons_of_ne_nil hwhole.nonempty
  have hd := hwhole.digits d List.mem_cons_self
  have hmore : ∀ c ∈ ds, c.isDigit = true := fun c hc =>
    hwhole.digits c (List.mem_cons_of_mem d hc)
  have hnext : NoDigit (bytesOf part ++ (bytesOf cs ++ rest)) :=
    noDigit_fraction hpart (noDigit_exponent h hrest.noDigit)
  rw [bytesOf_digit hd, List.append_assoc, List.cons_append, List.cons_append,
    bytesOf_digit hd, bytesOf_append, integer]
  split
  · next hzero =>
      have halone : d :: ds = ['0'] := by
        have hcode : d.toNat = 48 := by
          have hbyte := congrArg UInt8.toNat hzero
          rw [toNat_byte_digit hd] at hbyte
          exact hbyte
        apply hwhole.alone
        rw [List.head?_cons, ← Char.ofNat_toNat d, hcode]
      obtain ⟨rfl, rfl⟩ := List.cons.inj halone
      rw [Text.Utf8.bytesOf_nil, List.nil_append, fraction_read hpart h hrest]
      simp only [List.length_append, List.length_cons, List.length_nil]
      congr 1
      omega
  · rw [if_pos (isDigit_byte hd), takeWhile_digits hmore hnext,
      dropWhile_digits hmore hnext, fraction_read hpart h hrest]
    simp only [List.length_append, List.length_cons]
    congr 1
    omega

theorem integer_unsigned {cs : List Char} (h : IsUnsigned cs)
    (hrest : EndsValue rest) :
    integer true index (bytesOf cs ++ rest)
      = .complete (index + (bytesOf cs).length) := by
  obtain ⟨whole, part, exponent, rfl, hwhole, hpart, hexponent⟩ := h
  rw [← integer_read hwhole hpart hexponent hrest]
  simp

theorem of_unsigned {cs : List Char} (h : IsUnsigned cs)
    (hrest : EndsValue rest) :
    NumberSpan.of true (bytesOf cs ++ rest)
      = .complete (bytesOf cs).length := by
  obtain ⟨d, more, rfl, hd⟩ := h.exists_cons
  have hread := @integer_unsigned rest 0 _ h hrest
  rw [Nat.zero_add] at hread
  have hsign : UInt8.ofNat d.toNat ≠ 0x2D := by
    intro heq
    have hbyte := isDigit_byte hd
    rw [heq] at hbyte
    cases hbyte
  rw [← hread, bytesOf_digit hd]
  exact of_cons hsign true _

/-- A literal is read to its end. -/
theorem of_read {cs : List Char} (h : IsLiteral cs) (hrest : EndsValue rest) :
    NumberSpan.of true (bytesOf cs ++ rest)
      = .complete (bytesOf cs).length := by
  obtain h | ⟨cs, rfl, h⟩ := h
  · exact of_unsigned h hrest
  · have hread := @integer_unsigned rest 1 cs h hrest
    show integer true 1 (bytesOf cs ++ rest) = .complete ((bytesOf cs).length + 1)
    rw [hread, Nat.add_comm]

end NumberSpan

/-! ## Numbers as tokens -/

/-- A sign or a digit begins a number and nothing else. -/
theorem Token.read_number {b : UInt8} (hb : b = 0x2D ∨ isDigit b = true)
    (ending : Bool) (rest : List UInt8) :
    Token.read ending b rest = readNumber ending (b :: rest) := by
  have hchar : Char.ofNat b.toNat = '-' ∨
      (Char.ofNat b.toNat).isDigit = true := by
    rcases hb with rfl | hb
    · exact .inl rfl
    · right
      rw [isDigit, Bool.and_eq_true, decide_eq_true_eq, decide_eq_true_eq] at hb
      have hall : ∀ k < 58, 48 ≤ k → (Char.ofNat k).isDigit = true := by decide
      exact hall b.toNat (Nat.lt_succ_of_le hb.2) hb.1
  rw [Token.read.eq_def]
  split
  case h_12 =>
    refine if_pos ?_
    rcases hb with rfl | hb
    · exact .inl rfl
    · exact .inr hb
  all_goals
    next heq =>
    rw [heq] at hchar
    exact absurd hchar (by decide)

section

variable {cs : List Char} (h : IsLiteral cs)

include h

/-- A literal is written in ASCII. -/
theorem ascii_literal : ∀ c ∈ cs, c.toNat < 0x80 := by
  intro c hc
  rcases h.mem_cases hc with hd | rfl | rfl | rfl | rfl
  · have hbounds := digit_toNat hd
    omega
  all_goals decide

theorem asciiText_literal : asciiText (bytesOf cs) = String.ofList cs := by
  have hascii := ascii_literal h
  have hback : cs.map (fun c => Char.ofNat (UInt8.ofNat c.toNat).toNat) = cs := by
    refine (List.map_congr_left fun c hc => ?_).trans (List.map_id cs)
    have hc := hascii c hc
    rw [toNat_byte (by omega), Char.ofNat_toNat, id_def]
  rw [asciiText, Text.Utf8.bytesOf_ascii hascii, List.map_map]
  exact congrArg String.ofList hback

theorem exists_byte_literal : ∃ b more, bytesOf cs = b :: more ∧
    (b = 0x2D ∨ isDigit b = true) := by
  obtain h | ⟨cs, rfl, -⟩ := h
  · obtain ⟨d, more, rfl, hd⟩ := h.exists_cons
    exact ⟨_, _, bytesOf_digit hd more, .inr (isDigit_byte hd)⟩
  · exact ⟨_, _, rfl, .inl rfl⟩

theorem Token.readNumber_literal {rest : List UInt8} (hrest : EndsValue rest) :
    readNumber true (bytesOf cs ++ rest)
      = .token (.number (String.ofList cs)) ((bytesOf cs).length - 1) := by
  rw [readNumber, NumberSpan.of_read h hrest]
  dsimp only
  rw [List.take_left, asciiText_literal h]

end

end Ridership.Json

import Mathlib.Data.UInt
import Ridership.Text.Utf8

/-!
# The bytes of a text are its characters

A character is written as one to four bytes, and the machine that cuts bytes
into characters gives it back after the last of them: the code that it has
gathered from them is that of the character. What needs care is the second
byte. Its bounds shut out codes that have a shorter spelling, surrogates and
codes that are too large, and each bound is kept because no character has
such a code.

Behind a character the machine is where it was before, so a text follows
from its characters by induction (`decode_bytesOf`).
-/

namespace Ridership.Text.Utf8

theorem toNat_byte {k : Nat} (h : k < 256) : (UInt8.ofNat k).toNat = k := by
  rw [UInt8.toNat_ofNat']
  omega

/-- The code of a character is no surrogate and not too large. -/
theorem code_cases (c : Char) :
    c.val.toNat < 0xD800 ∨ 0xDFFF < c.val.toNat ∧ c.val.toNat < 0x110000 :=
  c.valid

theorem ofNat_code (c : Char) : Char.ofNat c.val.toNat = c :=
  Char.ofNat_toNat c

/-! ## Bytes behind the first -/

theorem next_inside {code seen owed : Nat} {low high b : UInt8}
    (hlow : low.toNat ≤ b.toNat) (hhigh : b.toNat ≤ high.toNat) :
    (State.inside code seen owed low high).next b
      = if owed ≤ 1 then
          (.between, [.char (Char.ofNat (code * 64 + (b.toNat - 0x80)))])
        else
          (.inside (code * 64 + (b.toNat - 0x80)) (seen + 1) (owed - 1)
            0x80 0xBF, []) := by
  have hbounds : low ≤ b ∧ b ≤ high := ⟨hlow, hhigh⟩
  rw [State.next, if_pos hbounds]

section

variable {code seen : Nat} (k : Nat) (gathered : List Piece)
  (rest : List UInt8)

/-- The last byte ends its character. -/
theorem run_last :
    run (.inside code seen 1 0x80 0xBF) gathered
        (UInt8.ofNat (k % 64 + 128) :: rest)
      = run .between (.char (Char.ofNat (code * 64 + k % 64)) :: gathered)
          rest := by
  have hk : (UInt8.ofNat (k % 64 + 128)).toNat = k % 64 + 128 :=
    toNat_byte (by omega)
  have hlow : (0x80 : UInt8).toNat ≤ (UInt8.ofNat (k % 64 + 128)).toNat := by
    rw [hk]
    show 128 ≤ _
    omega
  have hhigh : (UInt8.ofNat (k % 64 + 128)).toNat ≤ (0xBF : UInt8).toNat := by
    rw [hk]
    show _ ≤ 191
    omega
  rw [run, next_inside hlow hhigh, if_pos (Nat.le_refl 1), hk,
    Nat.add_sub_cancel]
  rfl

/-- A byte between the first and the last adds six bits. -/
theorem run_middle {owed : Nat} (howed : 1 < owed) {low high : UInt8}
    (hlow : low.toNat ≤ k % 64 + 128) (hhigh : k % 64 + 128 ≤ high.toNat) :
    run (.inside code seen owed low high) gathered
        (UInt8.ofNat (k % 64 + 128) :: rest)
      = run (.inside (code * 64 + k % 64) (seen + 1) (owed - 1) 0x80 0xBF)
          gathered rest := by
  have hk : (UInt8.ofNat (k % 64 + 128)).toNat = k % 64 + 128 :=
    toNat_byte (by omega)
  rw [← hk] at hlow hhigh
  rw [run, next_inside hlow hhigh, if_neg (by omega), hk,
    Nat.add_sub_cancel]
  rfl

end

/-! ## First bytes -/

section

variable {v : Nat}

theorem opening_of_two (hv : 0x80 ≤ v) (hv' : v < 0x800) :
    opening (UInt8.ofNat (v / 64 % 32 + 192))
      = (.inside (v / 64) 1 1 0x80 0xBF, []) := by
  have hb : (UInt8.ofNat (v / 64 % 32 + 192)).toNat = v / 64 + 192 := by
    rw [toNat_byte (by omega)]
    omega
  simp only [opening, hb]
  rw [if_neg (by omega), if_pos (by omega), Nat.add_sub_cancel]

/-- The bounds of the second of three bytes hold for the character's own. -/
theorem opening_of_three (hv : 0x800 ≤ v) (hv' : v < 0x10000)
    (hcode : v < 0xD800 ∨ 0xDFFF < v) :
    ∃ low high : UInt8,
      opening (UInt8.ofNat (v / 4096 % 16 + 224))
        = (.inside (v / 4096) 1 2 low high, []) ∧
      low.toNat ≤ v / 64 % 64 + 128 ∧ v / 64 % 64 + 128 ≤ high.toNat := by
  have hb : (UInt8.ofNat (v / 4096 % 16 + 224)).toNat = v / 4096 + 224 := by
    rw [toNat_byte (by omega)]
    omega
  simp only [opening, hb]
  rw [if_neg (by omega), if_neg (by omega)]
  by_cases hlong : v / 4096 = 0
  · rw [if_pos (by omega), hlong]
    refine ⟨_, _, rfl, ?_, ?_⟩
    · show 160 ≤ _
      omega
    · show _ ≤ 191
      omega
  by_cases hsurrogate : v / 4096 = 13
  · rw [if_neg (by omega), if_pos (by omega), hsurrogate]
    refine ⟨_, _, rfl, ?_, ?_⟩
    · show 128 ≤ _
      omega
    · show _ ≤ 159
      omega
  rw [if_neg (by omega), if_neg (by omega), if_pos (by omega),
    Nat.add_sub_cancel]
  refine ⟨_, _, rfl, ?_, ?_⟩
  · show 128 ≤ _
    omega
  · show _ ≤ 191
    omega

/-- So do those of the second of four. -/
theorem opening_of_four (hv : 0x10000 ≤ v) (hv' : v < 0x110000) :
    ∃ low high : UInt8,
      opening (UInt8.ofNat (v / 262144 % 8 + 240))
        = (.inside (v / 262144) 1 3 low high, []) ∧
      low.toNat ≤ v / 4096 % 64 + 128 ∧
      v / 4096 % 64 + 128 ≤ high.toNat := by
  have hb : (UInt8.ofNat (v / 262144 % 8 + 240)).toNat = v / 262144 + 240 := by
    rw [toNat_byte (by omega)]
    omega
  simp only [opening, hb]
  rw [if_neg (by omega), if_neg (by omega), if_neg (by omega),
    if_neg (by omega), if_neg (by omega)]
  by_cases hlong : v / 262144 = 0
  · rw [if_pos (by omega), hlong]
    refine ⟨_, _, rfl, ?_, ?_⟩
    · show 144 ≤ _
      omega
    · show _ ≤ 191
      omega
  by_cases hlarge : v / 262144 = 4
  · rw [if_neg (by omega), if_pos (by omega), hlarge]
    refine ⟨_, _, rfl, ?_, ?_⟩
    · show 128 ≤ _
      omega
    · show _ ≤ 143
      omega
  rw [if_neg (by omega), if_neg (by omega), if_pos (by omega),
    Nat.add_sub_cancel]
  refine ⟨_, _, rfl, ?_, ?_⟩
  · show 128 ≤ _
    omega
  · show _ ≤ 191
    omega

end

/-! ## Characters -/

theorem run_first {b : UInt8} {s : State} (h : opening b = (s, []))
    (gathered : List Piece) (rest : List UInt8) :
    run .between gathered (b :: rest) = run s gathered rest := by
  rw [run, State.next, h]
  rfl

theorem run_char (c : Char) (gathered : List Piece) (rest : List UInt8) :
    run .between gathered (String.utf8EncodeChar c ++ rest)
      = run .between (.char c :: gathered) rest := by
  have hcode := code_cases c
  have hc := ofNat_code c
  rw [String.utf8EncodeChar]
  generalize c.val.toNat = v at hcode hc
  subst hc
  split
  · next hone =>
      have hv : (UInt8.ofNat v).toNat = v := toNat_byte (by omega)
      rw [List.singleton_append, run, State.next, opening, hv,
        if_pos (by omega : v < 0x80)]
      rfl
  split
  · next hone htwo =>
      have hgathered : v / 64 * 64 + v % 64 = v := by omega
      show run .between gathered (_ :: _ :: rest) = _
      rw [run_first (opening_of_two (by omega) (by omega)), run_last,
        hgathered]
  split
  · next hone htwo hthree =>
      obtain ⟨low, high, hopen, hlow, hhigh⟩ :=
        @opening_of_three v (by omega) (by omega) (by omega)
      have hgathered : (v / 4096 * 64 + v / 64 % 64) * 64 + v % 64 = v := by
        omega
      show run .between gathered (_ :: _ :: _ :: rest) = _
      rw [run_first hopen, run_middle _ _ _ (by omega) hlow hhigh, run_last,
        hgathered]
  · next hone htwo hthree =>
      obtain ⟨low, high, hopen, hlow, hhigh⟩ :=
        @opening_of_four v (by omega) (by omega)
      have hgathered : ((v / 262144 * 64 + v / 4096 % 64) * 64 + v / 64 % 64) * 64
          + v % 64 = v := by
        omega
      have hfirst : (0x80 : UInt8).toNat ≤ v / 64 % 64 + 128 := by
        show 128 ≤ _
        omega
      have hlast : v / 64 % 64 + 128 ≤ (0xBF : UInt8).toNat := by
        show _ ≤ 191
        omega
      show run .between gathered (_ :: _ :: _ :: _ :: rest) = _
      rw [run_first hopen, run_middle _ _ _ (by omega) hlow hhigh,
        run_middle _ _ _ (by omega) hfirst hlast, run_last, hgathered]

/-! ## Texts -/

/-- The bytes of some characters. -/
def bytesOf (cs : List Char) : List UInt8 :=
  cs.flatMap String.utf8EncodeChar

@[simp] theorem bytesOf_nil : bytesOf [] = [] := rfl

@[simp] theorem bytesOf_cons (c : Char) (cs : List Char) :
    bytesOf (c :: cs) = String.utf8EncodeChar c ++ bytesOf cs :=
  List.flatMap_cons

@[simp] theorem bytesOf_append (cs ds : List Char) :
    bytesOf (cs ++ ds) = bytesOf cs ++ bytesOf ds :=
  List.flatMap_append

theorem run_chars (cs : List Char) (gathered : List Piece) :
    run .between gathered (bytesOf cs)
      = (.between, (cs.map .char).reverse ++ gathered) := by
  induction cs generalizing gathered with
  | nil => rfl
  | cons c cs ih =>
      rw [bytesOf_cons, run_char, ih, List.map_cons, List.reverse_cons,
        List.append_assoc]
      rfl

theorem firstFault_map_char (index : Nat) (cs : List Char) :
    firstFault index (cs.map .char) = none := by
  induction cs generalizing index with
  | nil => rfl
  | cons c cs ih => exact ih _

/-- The bytes of some characters are read as those characters. -/
theorem decode_bytesOf (cs : List Char) : decode (bytesOf cs) = .ok cs := by
  have hpieces : pieces (bytesOf cs) = cs.map .char := by
    rw [pieces, run_chars]
    simp [State.close]
  rw [decode, hpieces, firstFault_map_char]
  simp [Piece.toChar, Function.comp_def]

/-! ## ASCII -/

/-- A character of ASCII is one byte, its code. -/
theorem utf8EncodeChar_ascii {c : Char} (hc : c.toNat < 0x80) :
    String.utf8EncodeChar c = [UInt8.ofNat c.toNat] := by
  have hsmall : c.val.toNat ≤ 127 := Nat.le_of_lt_succ hc
  rw [String.utf8EncodeChar]
  exact if_pos hsmall

theorem bytesOf_ascii {cs : List Char} (h : ∀ c ∈ cs, c.toNat < 0x80) :
    bytesOf cs = cs.map fun c => UInt8.ofNat c.toNat := by
  induction cs with
  | nil => rfl
  | cons c cs ih =>
      have hc : c.toNat < 0x80 := h c List.mem_cons_self
      have hcs : ∀ d ∈ cs, d.toNat < 0x80 := fun d hd =>
        h d (List.mem_cons_of_mem c hd)
      rw [bytesOf_cons, utf8EncodeChar_ascii hc, ih hcs]
      rfl

theorem digit_toNat {c : Char} (h : c.isDigit = true) :
    48 ≤ c.toNat ∧ c.toNat ≤ 57 :=
  Char.isDigit_iff_toNat.mp h

theorem toNat_byte_digit {c : Char} (h : c.isDigit = true) :
    (UInt8.ofNat c.toNat).toNat = c.toNat := by
  have hc := digit_toNat h
  exact toNat_byte (by omega)

theorem utf8EncodeChar_digit {c : Char} (h : c.isDigit = true) :
    String.utf8EncodeChar c = [UInt8.ofNat c.toNat] := by
  have hc := digit_toNat h
  exact utf8EncodeChar_ascii (by omega)

/-- A character beyond ASCII has no byte of ASCII. -/
theorem le_of_mem_utf8EncodeChar {c : Char} (hc : 0x80 ≤ c.val.toNat)
    {b : UInt8} (h : b ∈ String.utf8EncodeChar c) : 0x80 ≤ b.toNat := by
  rw [String.utf8EncodeChar] at h
  generalize c.val.toNat = v at hc h
  have hbyte {k n : Nat} (hn : 0x80 ≤ n) (hk : k + n < 256)
      (hb : b = UInt8.ofNat (k + n)) : 0x80 ≤ b.toNat := by
    rw [hb, toNat_byte hk]
    omega
  split at h
  · omega
  split at h
  · rcases List.mem_pair.mp h with hb | hb
    · exact hbyte (by omega) (by omega) hb
    · exact hbyte (by omega) (by omega) hb
  split at h
  · rcases List.mem_cons.mp h with hb | h
    · exact hbyte (by omega) (by omega) hb
    rcases List.mem_pair.mp h with hb | hb
    · exact hbyte (by omega) (by omega) hb
    · exact hbyte (by omega) (by omega) hb
  · rcases List.mem_cons.mp h with hb | h
    · exact hbyte (by omega) (by omega) hb
    rcases List.mem_cons.mp h with hb | h
    · exact hbyte (by omega) (by omega) hb
    rcases List.mem_pair.mp h with hb | hb
    · exact hbyte (by omega) (by omega) hb
    · exact hbyte (by omega) (by omega) hb

/-- A byte of a character is its code or none of ASCII. -/
theorem mem_utf8EncodeChar_cases {c : Char} {b : UInt8}
    (h : b ∈ String.utf8EncodeChar c) :
    b.toNat = c.toNat ∨ 0x80 ≤ b.toNat := by
  by_cases hascii : c.toNat < 0x80
  · left
    rw [utf8EncodeChar_ascii hascii, List.mem_singleton] at h
    rw [h, toNat_byte (by omega)]
  · right
    exact le_of_mem_utf8EncodeChar (Nat.le_of_not_lt hascii) h

end Ridership.Text.Utf8

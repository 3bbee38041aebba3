import Ridership.Json.Token
import Ridership.Json.Value
import Ridership.Proofs.Utf8Text

/-!
# A string that was written is read again

A reader that stands inside a string has read some characters: those told by
escapes it has as characters, and those behind the last escape still as bytes.
Both together are what it `Spells`, and each character as it was written adds
itself to that, whether it was escaped or not. The quote that ends the string
ends it too early nowhere, for a quote inside is escaped, and beyond ASCII no
byte looks like one.
-/

namespace Ridership.Json

open Text.Utf8 (bytesOf)

/-- Some characters are all that was read, and nothing was wrong with them. -/
def StringState.Spells (s : StringState) (cs : List Char) : Prop :=
  s.mark = none ∧
    ∃ run, s.run.reverse = bytesOf run ∧ s.chars.reverse ++ run = cs

theorem StringState.start_spells : StringState.start.Spells [] :=
  ⟨rfl, [], rfl, rfl⟩

namespace StringState.Spells

variable {s : StringState} {cs : List Char} {index : Nat} {rest : List UInt8}

theorem closeRun (h : s.Spells cs) (index : Nat) :
    s.closeRun index = ⟨cs.reverse, [], none⟩ := by
  obtain ⟨hmark, run, hrun, rfl⟩ := h
  rw [StringState.closeRun, hrun, Text.Utf8.decode_bytesOf, hmark]
  simp

theorem push (cs : List Char) (c : Char) :
    (StringState.push ⟨cs.reverse, [], none⟩ c).Spells (cs ++ [c]) := by
  refine ⟨rfl, [], rfl, ?_⟩
  show (c :: cs.reverse).reverse ++ [] = cs ++ [c]
  simp

theorem read_quote (h : s.Spells cs) :
    s.read index (0x22 :: rest) = .token (.string (String.ofList cs)) index := by
  rw [StringState.read, if_pos rfl, h.closeRun]
  simp

/-! ## Characters as they are -/

theorem read_bytes {bytes : List UInt8}
    (hbytes : ∀ b ∈ bytes, b ≠ 0x22 ∧ b ≠ 0x5C ∧ ¬ b < 0x20)
    (s : StringState) :
    s.read index (bytes ++ rest)
      = { s with run := bytes.reverse ++ s.run }.read (index + bytes.length)
          rest := by
  induction bytes generalizing s index with
  | nil => rfl
  | cons b bytes ih =>
      obtain ⟨hquote, hslash, hcontrol⟩ := hbytes b List.mem_cons_self
      have hrest := fun d hd => hbytes d (List.mem_cons_of_mem b hd)
      rw [List.cons_append, StringState.read, if_neg hquote, if_neg hslash,
        if_neg hcontrol, ih hrest, List.length_cons]
      simp [Nat.add_comm, Nat.add_left_comm]

theorem plain_bytes {c : Char} (hquote : c ≠ '"') (hslash : c ≠ '\\')
    (hcontrol : ¬ c.toNat < 0x20) :
    ∀ b ∈ String.utf8EncodeChar c, b ≠ 0x22 ∧ b ≠ 0x5C ∧ ¬ b < 0x20 := by
  intro b hb
  have hcode := Text.Utf8.mem_utf8EncodeChar_cases hb
  have hne {k : UInt8} (hk : k.toNat < 0x80)
      (hc : c ≠ Char.ofNat k.toNat) : b ≠ k := by
    rintro rfl
    rcases hcode with hcode | hlarge
    · rw [hcode, Char.ofNat_toNat] at hc
      exact hc rfl
    · omega
  refine ⟨hne (by decide) hquote, hne (by decide) hslash, fun hlt => ?_⟩
  have hlt : b.toNat < 0x20 := hlt
  omega

/-! ## Escapes -/

theorem read_letter (h : s.Spells cs) {letter : UInt8} {c : Char}
    (hu : letter ≠ 0x75) (hletter : simpleEscape? letter = some c) :
    s.read index (0x5C :: letter :: rest)
      = (StringState.push ⟨cs.reverse, [], none⟩ c).read (index + 2) rest := by
  rw [StringState.read, if_neg (by decide), if_pos rfl, h.closeRun]
  dsimp only
  rw [if_neg hu, hletter]

theorem read_unit (h : s.Spells cs) {d₁ d₂ d₃ d₄ : UInt8} {unit : Nat}
    (hunit : codeUnit 0 [d₁, d₂, d₃, d₄] = .ok unit)
    (hsurrogate : isSurrogate unit = false) :
    s.read index (0x5C :: 0x75 :: d₁ :: d₂ :: d₃ :: d₄ :: rest)
      = (StringState.push ⟨cs.reverse, [], none⟩ (Char.ofNat unit)).read
          (index + 6) rest := by
  rw [StringState.read, if_neg (by decide), if_pos rfl, h.closeRun]
  dsimp only
  rw [if_pos rfl, hunit]
  dsimp only
  rw [hsurrogate]
  rfl

/-- The digits of a control character spell its code. -/
theorem control_digits : ∀ n < 0x20, ∃ d₃ d₄,
    bytesOf ['\\', 'u', '0', '0', hexDigit (n / 16), hexDigit n]
      = [0x5C, 0x75, 0x30, 0x30, d₃, d₄] ∧
    codeUnit 0 [0x30, 0x30, d₃, d₄] = .ok n ∧ isSurrogate n = false := by
  intro n hn
  refine ⟨UInt8.ofNat (hexDigit (n / 16)).toNat,
    UInt8.ofNat (hexDigit n).toNat, ?_⟩
  revert n
  decide

/-- A character as it was written is read as that character. -/
theorem read_escape (h : s.Spells cs) (c : Char) : ∃ s' : StringState,
    s'.Spells (cs ++ [c]) ∧
    ∀ rest, s.read index (bytesOf (escape c) ++ rest)
      = s'.read (index + (bytesOf (escape c)).length) rest := by
  have hletter {letter : UInt8} {c : Char} (hu : letter ≠ 0x75)
      (hescape : simpleEscape? letter = some c) : ∃ s' : StringState,
      s'.Spells (cs ++ [c]) ∧
      ∀ rest, s.read index ([0x5C, letter] ++ rest)
        = s'.read (index + 2) rest :=
    ⟨_, push cs c, fun rest => h.read_letter hu hescape⟩
  unfold escape
  split
  case h_8 hquote hslash _ _ _ _ _ =>
    by_cases hcontrol : c.toNat < 0x20
    · obtain ⟨d₃, d₄, hbytes, hunit, hsurrogate⟩ := control_digits _ hcontrol
      rw [if_pos hcontrol, hbytes]
      refine ⟨_, push cs c, fun rest => ?_⟩
      have hread := @read_unit s cs index rest h _ _ _ _ _ hunit hsurrogate
      rw [Char.ofNat_toNat] at hread
      exact hread
    · obtain ⟨hmark, run, hrun, rfl⟩ := h
      rw [if_neg hcontrol, Text.Utf8.bytesOf_cons, Text.Utf8.bytesOf_nil,
        List.append_nil]
      have hplain := plain_bytes hquote hslash hcontrol
      refine ⟨_, ?_, fun rest => read_bytes hplain s⟩
      refine ⟨hmark, run ++ [c], ?_, ?_⟩
      · simp [hrun]
      · simp
  all_goals exact hletter (by decide) rfl

theorem read_escapes (h : s.Spells cs) (more : List Char) :
    s.read index (bytesOf (more.flatMap escape) ++ 0x22 :: rest)
      = .token (.string (String.ofList (cs ++ more)))
          (index + (bytesOf (more.flatMap escape)).length) := by
  induction more generalizing s cs index with
  | nil => simpa using h.read_quote
  | cons c more ih =>
      obtain ⟨s', hs', hread⟩ := @read_escape s cs index h c
      rw [List.flatMap_cons, Text.Utf8.bytesOf_append, List.append_assoc, hread,
        ih hs', List.length_append, List.append_assoc, Nat.add_assoc]
      rfl

end StringState.Spells

/-- A string is read to its closing quote as it was written. -/
theorem Token.readString_escaped (s : String) (rest : List UInt8) :
    Token.readString (bytesOf (s.toList.flatMap escape) ++ 0x22 :: rest)
      = .token (.string s)
          (1 + (bytesOf (s.toList.flatMap escape)).length) := by
  rw [Token.readString_eq, StringState.start_spells.read_escapes]
  simp

end Ridership.Json

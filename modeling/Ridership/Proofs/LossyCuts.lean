import Ridership.Proofs.Utf8Text

/-!
# Where bytes are cut, the text is cut

Bytes may be cut inside a character. Then the text of the first part ends with a
replacement character, where the text of all bytes goes on with the character
itself, or with a replacement character too if the bytes behind the cut break
it. All characters before that one are the same.

The two last characters need not be the same, but neither is one of ASCII. For
the replacement character this is plain. For a character that is completed
behind the cut it is what the bounds of its second byte are for: whatever bytes
are still to come, its code will be beyond ASCII, and will be that of a
character (`Sound`).
-/

namespace Ridership.Text.Utf8

theorem run_cons (s : State) (gathered : List Piece) (b : UInt8)
    (bytes : List UInt8) :
    run s gathered (b :: bytes)
      = run (s.next b).1 ((s.next b).2.reverse ++ gathered) bytes :=
  rfl

theorem run_append (s : State) (gathered : List Piece)
    (front back : List UInt8) :
    run s gathered (front ++ back)
      = run (run s gathered front).1 (run s gathered front).2 back := by
  induction front generalizing s gathered with
  | nil => rfl
  | cons b front ih => exact ih _ _

/-- What is gathered before stays behind what is gathered. -/
theorem run_gathered (s : State) (gathered : List Piece)
    (bytes : List UInt8) :
    run s gathered bytes
      = ((run s [] bytes).1, (run s [] bytes).2 ++ gathered) := by
  induction bytes generalizing s gathered with
  | nil => rfl
  | cons b bytes ih =>
      rw [run_cons, run_cons, ih, ih _ ((s.next b).2.reverse ++ [])]
      simp

/-! ## Codes that are under way -/

/-- All codes that a character may still get, when so many bytes are owed of it
and the next one lies within bounds, are beyond ASCII and those of
characters. -/
def Sound (code owed low high : Nat) : Prop :=
  1 ≤ owed ∧ ∀ v, code * 64 + (low - 0x80) ≤ v / 64 ^ (owed - 1) →
    v / 64 ^ (owed - 1) ≤ code * 64 + (high - 0x80) →
    0x80 ≤ v ∧ v.isValidChar

/-- A machine whose character can only turn out beyond ASCII. -/
def State.Sound : State → Prop
  | .between => True
  | .inside code _ owed low high => Utf8.Sound code owed low.toNat high.toNat

theorem opening_sound (b : UInt8) : (opening b).1.Sound := by
  have hb := b.toNat_lt
  have hthree (v : Nat) : v / 64 ^ 2 = v / 4096 := rfl
  simp only [opening]
  repeat' split
  all_goals first
    | trivial
    | refine ⟨by omega, fun v hleast hgreatest => ?_⟩
      simp only [Nat.isValidChar] at hleast hgreatest ⊢
      simp at hleast hgreatest
      omega

section

variable {code seen owed : Nat} {low high b : UInt8}
  (h : (State.inside code seen owed low high).Sound)
  (hlow : low.toNat ≤ b.toNat) (hhigh : b.toNat ≤ high.toNat)

include h hlow hhigh

/-- A byte within the bounds leaves fewer codes, but all of them sound. -/
theorem sound_of_byte (howed : 1 < owed) :
    Sound (code * 64 + (b.toNat - 0x80)) (owed - 1) 0x80 0xBF := by
  refine ⟨by omega, fun v hleast hgreatest => ?_⟩
  have hdigits : v / 64 ^ (owed - 1) = v / 64 ^ (owed - 1 - 1) / 64 := by
    have hpow : 64 ^ (owed - 1) = 64 ^ (owed - 1 - 1) * 64 := by
      rw [← Nat.pow_succ]
      congr 1
      omega
    rw [Nat.div_div_eq_div_mul, hpow]
  refine h.2 v ?_ ?_
  · rw [hdigits]
    omega
  · rw [hdigits]
    omega

/-- The last byte gives a character beyond ASCII. -/
theorem toNat_of_byte (howed : owed ≤ 1) :
    0x80 ≤ (Char.ofNat (code * 64 + (b.toNat - 0x80))).toNat := by
  obtain ⟨hone, hcodes⟩ := h
  obtain rfl : owed = 1 := by omega
  obtain ⟨hleast, hvalid⟩ := hcodes (code * 64 + (b.toNat - 0x80))
    (by simp; omega) (by simp; omega)
  rw [Char.ofNat, dif_pos hvalid]
  exact hleast

end

theorem next_sound {s : State} (h : s.Sound) (b : UInt8) :
    (s.next b).1.Sound := by
  cases s with
  | between => exact opening_sound b
  | inside code seen owed low high =>
      rw [State.next]
      split
      · next hbounds =>
          split
          · trivial
          · next howed =>
              exact sound_of_byte h hbounds.1 hbounds.2 (Nat.lt_of_not_le howed)
      · exact opening_sound b

theorem run_sound {s : State} (h : s.Sound) (gathered : List Piece)
    (bytes : List UInt8) : (run s gathered bytes).1.Sound := by
  induction bytes generalizing s gathered with
  | nil => exact h
  | cons b bytes ih => exact ih (next_sound h b) _

/-! ## Pieces behind a cut -/

/-- The pieces that a machine still tells of bytes and of their end. -/
def piecesFrom (s : State) (bytes : List UInt8) : List Piece :=
  ((run s [] bytes).1.close ++ (run s [] bytes).2).reverse

theorem pieces_eq (bytes : List UInt8) :
    pieces bytes = piecesFrom .between bytes :=
  rfl

theorem piecesFrom_nil (s : State) : piecesFrom s [] = s.close := by
  cases s <;> rfl

theorem piecesFrom_cons (s : State) (b : UInt8) (bytes : List UInt8) :
    piecesFrom s (b :: bytes)
      = (s.next b).2 ++ piecesFrom (s.next b).1 bytes := by
  rw [piecesFrom, run_cons, List.append_nil, run_gathered, piecesFrom]
  simp

theorem piecesFrom_append (s : State) (front back : List UInt8) :
    piecesFrom s (front ++ back)
      = (run s [] front).2.reverse ++ piecesFrom (run s [] front).1 back := by
  rw [piecesFrom, run_append, run_gathered, piecesFrom]
  simp

/-- The first piece that a machine inside a character still tells is
none of ASCII. -/
theorem piecesFrom_inside {code seen owed : Nat} {low high : UInt8}
    (h : (State.inside code seen owed low high).Sound) (bytes : List UInt8) :
    ∃ p more, piecesFrom (.inside code seen owed low high) bytes = p :: more ∧
      0x80 ≤ p.toChar.toNat := by
  have hreplaced : 0x80 ≤ ('\uFFFD').toNat := by decide
  induction bytes generalizing code seen owed low high with
  | nil => exact ⟨.incomplete seen, [], rfl, hreplaced⟩
  | cons b bytes ih =>
      rw [piecesFrom_cons]
      by_cases hbounds : low ≤ b ∧ b ≤ high
      · rw [next_inside hbounds.1 hbounds.2]
        by_cases howed : owed ≤ 1
        · rw [if_pos howed]
          exact ⟨_, _, rfl, toNat_of_byte h hbounds.1 hbounds.2 howed⟩
        · rw [if_neg howed]
          exact ih (sound_of_byte h hbounds.1 hbounds.2
            (Nat.lt_of_not_le howed))
      · rw [State.next, if_neg hbounds]
        exact ⟨.invalid seen, _, rfl, hreplaced⟩

/-- The text of the bytes in front of a cut is in front in the text of all
bytes, or it is but for a replacement character, in whose place no character of
ASCII stands. -/
theorem lossy_take (bytes : List UInt8) (n : Nat) :
    (lossy (bytes.take n)).toList <+: (lossy bytes).toList ∨
    ∃ front c back, (lossy (bytes.take n)).toList = front ++ ['\uFFFD'] ∧
      (lossy bytes).toList = front ++ c :: back ∧ 0x80 ≤ c.toNat := by
  have hsound := run_sound (s := .between) trivial [] (bytes.take n)
  have hfront := piecesFrom_append .between (bytes.take n) []
  have hall := piecesFrom_append .between (bytes.take n) (bytes.drop n)
  rw [List.append_nil, piecesFrom_nil] at hfront
  rw [List.take_append_drop] at hall
  simp only [lossy, pieces_eq, String.toList_ofList]
  rw [hfront, hall]
  revert hsound
  cases (run .between [] (bytes.take n)).1 with
  | between =>
      intro
      rw [State.close, List.append_nil, List.map_append]
      exact .inl (List.prefix_append _ _)
  | inside code seen owed low high =>
      intro hsound
      obtain ⟨p, more, hmore, hp⟩ := piecesFrom_inside hsound (bytes.drop n)
      rw [hmore, List.map_append, List.map_append]
      exact .inr ⟨_, p.toChar, _, rfl, rfl, hp⟩

end Ridership.Text.Utf8

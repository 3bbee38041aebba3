import Mathlib.Data.List.TakeWhile
import Ridership.Proofs.TokenStable

/-!
# A token that was waited for reaches as far as was waited

When the bytes at hand do not settle what they begin with, more bytes may. The
token they settle then is no shorter than what had been at hand: nothing in
front of the new bytes was a token of its own, or it would have been told
before. The lemmas walk the readers once more, each with the bytes that were
waited for and the bytes that came.

A number is the one token that may end just where the new bytes begin, for it
takes a byte behind a number to settle that it ends. Every other token ends
among them.
-/

namespace Ridership.Json

/-! ## Words -/

theorem Token.readWord_reach {ending : Bool} {word : String} {t t' : Token}
    {b : UInt8} {rest part : List UInt8} {more : Nat}
    (h : readWord false word t (b :: rest) = .unfinished)
    (hmore : readWord ending word t (b :: rest ++ part) = .token t' more) :
    rest.length ≤ more := by
  unfold readWord at h hmore
  dsimp only at h hmore
  have hlength : ((b :: rest).take (Text.Utf8.encode word).length).length
      < (Text.Utf8.encode word).length := by
    split at h
    · assumption
    · next hlen =>
        -- Letters that are long enough are another word, whatever comes.
        have hle : (Text.Utf8.encode word).length ≤ (b :: rest).length := by
          rw [List.length_take] at hlen
          omega
        rw [List.take_append_of_le_length hle, if_neg hlen] at hmore
        split at h
        · cases h
        · next hword =>
            rw [if_neg hword] at hmore
            split at hmore <;> cases hmore
  split at hmore
  · cases hmore
  · split at hmore
    · cases hmore
      rw [List.length_take, List.length_cons] at hlength
      omega
    · split at hmore <;> cases hmore

/-! ## Numbers -/

section

variable {ending : Bool} {index length : Nat} {bytes part : List UInt8}

theorem NumberSpan.lastDigits_le
    (h : lastDigits ending index bytes = .complete length) :
    index ≤ length := by
  unfold lastDigits at h
  split at h
  · cases h
  · cases h
    exact Nat.le_add_right _ _

/-- A mark has a digit behind it, at the least. -/
theorem NumberSpan.exponent_marked_le {mark : UInt8}
    (hmark : mark = 0x65 ∨ mark = 0x45)
    (h : exponent ending index (mark :: bytes) = .complete length) :
    index + 2 ≤ length := by
  simp only [exponent, if_pos hmark] at h
  cases bytes with
  | nil => cases h
  | cons sign rest =>
      dsimp only at h
      split at h
      · cases rest with
        | nil => cases h
        | cons digit rest =>
            dsimp only at h
            split at h
            · exact Nat.le_of_succ_le (lastDigits_le h)
            · cases h
      · split at h
        · exact lastDigits_le h
        · cases h

theorem NumberSpan.exponent_le
    (h : exponent ending index bytes = .complete length) :
    index ≤ length := by
  match bytes with
  | [] =>
      rw [exponent] at h
      split at h <;> cases h
      exact Nat.le_refl _
  | mark :: rest =>
      by_cases hmark : mark = 0x65 ∨ mark = 0x45
      · have hle := exponent_marked_le hmark h
        omega
      · simp only [exponent, if_neg hmark] at h
        cases h
        exact Nat.le_refl _

theorem NumberSpan.fraction_le
    (h : fraction ending index bytes = .complete length) :
    index ≤ length := by
  match bytes with
  | [] =>
      rw [fraction] at h
      split at h <;> cases h
      exact Nat.le_refl _
  | point :: rest =>
      simp only [fraction] at h
      split at h
      · cases rest with
        | nil => cases h
        | cons digit rest =>
            dsimp only at h
            split at h
            · have hle := exponent_le h
              omega
            · cases h
      · exact exponent_le h

/-- Digits without an end go on among the new bytes. -/
theorem takeWhile_append_of_all {p : UInt8 → Bool}
    (h : bytes.dropWhile p = []) :
    (bytes ++ part).takeWhile p = bytes ++ part.takeWhile p ∧
    (bytes ++ part).dropWhile p = part.dropWhile p := by
  rw [List.dropWhile_eq_nil_iff] at h
  exact ⟨List.takeWhile_append_of_pos h, List.dropWhile_append_of_pos h⟩

theorem NumberSpan.lastDigits_reach
    (h : lastDigits false index bytes = .unfinished)
    (hmore : lastDigits ending index (bytes ++ part) = .complete length) :
    index + bytes.length ≤ length := by
  have hall : bytes.dropWhile isDigit = [] := by
    unfold lastDigits at h
    split at h
    · next hempty => simpa using hempty
    · cases h
  unfold lastDigits at hmore
  split at hmore
  · cases hmore
  · cases hmore
    rw [(takeWhile_append_of_all hall).1, List.length_append]
    omega

/-- Only behind a mark there is something to be waited for. -/
theorem NumberSpan.exponent_marked {mark : UInt8}
    (h : exponent false index (mark :: bytes) = .unfinished) :
    mark = 0x65 ∨ mark = 0x45 := by
  simp only [exponent] at h
  split at h
  · assumption
  · cases h

theorem NumberSpan.exponent_reach
    (h : exponent false index bytes = .unfinished)
    (hmore : exponent ending index (bytes ++ part) = .complete length) :
    index + bytes.length ≤ length := by
  match bytes with
  | [] => exact exponent_le hmore
  | [mark] =>
      have hle := exponent_marked_le (exponent_marked h) hmore
      simp only [List.length_singleton]
      omega
  | [mark, sign] => exact exponent_marked_le (exponent_marked h) hmore
  | mark :: sign :: digit :: rest =>
      have hmark := exponent_marked h
      simp only [exponent, List.cons_append, if_pos hmark] at h hmore
      simp only [List.length_cons]
      split at h
      · next hsign =>
          rw [if_pos hsign] at hmore
          split at h
          · next hd =>
              rw [if_pos hd] at hmore
              have hreach := lastDigits_reach h hmore
              omega
          · cases h
      · next hsign =>
          rw [if_neg hsign] at hmore
          split at h
          · next hd =>
              rw [if_pos hd] at hmore
              have hreach := lastDigits_reach h hmore
              rw [List.length_cons] at hreach
              omega
          · cases h

/-- Digits that go on, or that end where more is waited for. -/
theorem NumberSpan.exponent_reach_digits
    (h : exponent false (index + (bytes.takeWhile isDigit).length)
      (bytes.dropWhile isDigit) = .unfinished)
    (hmore : exponent ending
      (index + ((bytes ++ part).takeWhile isDigit).length)
      ((bytes ++ part).dropWhile isDigit) = .complete length) :
    index + bytes.length ≤ length := by
  by_cases hall : bytes.dropWhile isDigit = []
  · rw [(takeWhile_append_of_all hall).1, List.length_append] at hmore
    have hle := exponent_le hmore
    omega
  · rw [takeWhile_append_of_stop hall, dropWhile_append_of_stop hall] at hmore
    have hreach := exponent_reach h hmore
    have hdigits := digits_length_le bytes
    omega

theorem NumberSpan.fraction_reach
    (h : fraction false index bytes = .unfinished)
    (hmore : fraction ending index (bytes ++ part) = .complete length) :
    index + bytes.length ≤ length := by
  match bytes with
  | [] => exact fraction_le hmore
  | point :: rest =>
      simp only [fraction, List.cons_append] at h hmore
      split at h
      · next hpoint =>
          rw [if_pos hpoint] at hmore
          cases rest with
          | nil =>
              cases part with
              | nil => cases hmore
              | cons digit part =>
                  simp only [List.nil_append, List.length_singleton] at hmore ⊢
                  split at hmore
                  · have hle := exponent_le hmore
                    omega
                  · cases hmore
          | cons digit rest =>
              simp only [List.cons_append] at h hmore
              split at h
              · next hd =>
                  rw [if_pos hd] at hmore
                  have hreach := exponent_reach_digits h hmore
                  simp only [List.length_cons]
                  omega
              · cases h
      · next hpoint =>
          rw [if_neg hpoint] at hmore
          exact exponent_reach h hmore

theorem NumberSpan.integer_le
    (h : integer ending index bytes = .complete length) :
    index ≤ length := by
  cases bytes with
  | nil => cases h
  | cons digit rest =>
      simp only [integer] at h
      split at h
      · exact Nat.le_of_succ_le (fraction_le h)
      · split at h
        · have hle := fraction_le h
          omega
        · cases h

theorem NumberSpan.integer_reach
    (h : integer false index bytes = .unfinished)
    (hmore : integer ending index (bytes ++ part) = .complete length) :
    index + bytes.length ≤ length := by
  match bytes with
  | [] => exact integer_le hmore
  | digit :: rest =>
      simp only [integer, List.cons_append, List.length_cons] at h hmore ⊢
      split at h
      · next hz =>
          rw [if_pos hz] at hmore
          have hreach := fraction_reach h hmore
          omega
      · next hz =>
          rw [if_neg hz] at hmore
          split at h
          · next hd =>
              rw [if_pos hd] at hmore
              by_cases hall : rest.dropWhile isDigit = []
              · rw [(takeWhile_append_of_all hall).1,
                  List.length_append] at hmore
                have hle := fraction_le hmore
                omega
              · rw [takeWhile_append_of_stop hall,
                  dropWhile_append_of_stop hall] at hmore
                have hreach := fraction_reach h hmore
                have hdigits := digits_length_le rest
                omega
          · cases h

theorem NumberSpan.of_reach (h : NumberSpan.of false bytes = .unfinished)
    (hmore : NumberSpan.of ending (bytes ++ part) = .complete length) :
    bytes.length ≤ length := by
  match bytes with
  | [] => exact Nat.zero_le _
  | b :: rest =>
      by_cases hb : b = 0x2D
      · subst hb
        have hreach := integer_reach h hmore
        rw [List.length_cons]
        omega
      · rw [of_cons hb] at h
        rw [List.cons_append, of_cons hb, ← List.cons_append] at hmore
        have hreach := integer_reach h hmore
        omega

end

theorem Token.readNumber_reach {ending : Bool} {b : UInt8}
    {rest part : List UInt8} {t : Token} {more : Nat}
    (h : readNumber false (b :: rest) = .unfinished)
    (hmore : readNumber ending (b :: rest ++ part) = .token t more) :
    rest.length ≤ more := by
  unfold readNumber at h hmore
  have hspan : NumberSpan.of false (b :: rest) = .unfinished := by
    split at h
    · assumption
    · cases h
    · cases h
  split at hmore
  · cases hmore
  · next length hcomplete =>
      have hreach := NumberSpan.of_reach hspan hcomplete
      rw [List.length_cons] at hreach
      cases hmore
      omega
  · cases hmore

/-! ## Strings -/

theorem StringState.read_le {s : StringState} {index more : Nat}
    {bytes : List UInt8} {t : Token}
    (h : s.read index bytes = .token t more) : index ≤ more := by
  fun_induction StringState.read s index bytes with
  | case1 | case4 | case7 | case9 => cases h
  | case2 => cases h
  | case3 =>
      cases h
      exact Nat.le_refl _
  | case5 | case6 | case8 | case10 | case11 | case12 =>
      rename_i ih
      have hle := ih h
      omega

section

variable {s : StringState} {index more : Nat} {bytes part : List UInt8}
  {t : Token}

theorem length_of_no_unit (h : ∀ d₁ d₂ d₃ d₄ more,
    bytes = d₁ :: d₂ :: d₃ :: d₄ :: more → False) : bytes.length < 4 := by
  match bytes with
  | [] | [_] | [_, _] | [_, _, _] => simp
  | d₁ :: d₂ :: d₃ :: d₄ :: more => exact (h d₁ d₂ d₃ d₄ more rfl).elim

theorem length_of_no_pair (h : ∀ slash u e₁ e₂ e₃ e₄ more,
    bytes = slash :: u :: e₁ :: e₂ :: e₃ :: e₄ :: more → False) :
    bytes.length < 6 := by
  match bytes with
  | [] | [_] | [_, _] | [_, _, _] | [_, _, _, _] | [_, _, _, _, _] => simp
  | slash :: u :: e₁ :: e₂ :: e₃ :: e₄ :: more =>
      exact (h slash u e₁ e₂ e₃ e₄ more rfl).elim

/-- An escape by number takes six bytes. -/
theorem StringState.read_unit_le
    (h : s.read index (0x5C :: 0x75 :: bytes) = .token t more) :
    index + 6 ≤ more := by
  rw [StringState.read] at h
  simp only [show ¬ (0x5C : UInt8) = 0x22 by decide, if_true, if_false] at h
  split at h
  · split at h
    · exact read_le h
    · split at h
      · split at h
        · have hle := read_le h
          omega
        · cases h
      · exact read_le h
  · cases h

/-- Any other escape takes two bytes. -/
theorem StringState.read_escape_le
    (h : s.read index (0x5C :: bytes) = .token t more) : index + 2 ≤ more := by
  cases bytes with
  | nil =>
      rw [StringState.read] at h
      cases h
  | cons letter rest =>
      by_cases hletter : letter = 0x75
      · subst hletter
        have hle := read_unit_le h
        omega
      · rw [StringState.read] at h
        simp only [show ¬ (0x5C : UInt8) = 0x22 by decide, hletter, if_true,
          if_false] at h
        split at h
        · exact read_le h
        · exact read_le h

/-- A surrogate takes another six. -/
theorem StringState.read_pair_le {d₁ d₂ d₃ d₄ : UInt8} {unit : Nat}
    (hunit : codeUnit 0 [d₁, d₂, d₃, d₄] = .ok unit)
    (hpair : isSurrogate unit = true)
    (h : s.read index (0x5C :: 0x75 :: d₁ :: d₂ :: d₃ :: d₄ :: bytes)
      = .token t more) : index + 12 ≤ more := by
  rw [StringState.read] at h
  simp only [show ¬ (0x5C : UInt8) = 0x22 by decide, hunit, hpair, if_true,
    if_false] at h
  split at h
  · exact read_le h
  · cases h

theorem StringState.read_reach (h : s.read index bytes = .unfinished)
    (hmore : s.read index (bytes ++ part) = .token t more) :
    index + bytes.length ≤ more := by
  fun_induction StringState.read s index bytes with
  | case1 => exact read_le hmore
  | case2 => cases h
  | case3 => cases h
  | case4 => exact Nat.le_of_succ_le (read_escape_le hmore)
  | case5 s index closed d₁ d₂ d₃ d₄ rest bad hcode hquote ih =>
      simp only [List.cons_append] at hmore
      rw [StringState.read] at hmore
      simp only [hcode, hquote, if_true, if_false] at hmore
      have hreach := ih h hmore
      simp only [List.length_cons]
      omega
  | case6 s index closed d₁ d₂ d₃ d₄ unit hcode hpair slash u e₁ e₂ e₃ e₄ rest
      hquote ih =>
      simp only [List.cons_append] at hmore
      rw [StringState.read] at hmore
      simp only [hcode, hquote, hpair, if_true, if_false] at hmore
      have hreach := ih h hmore
      simp only [List.length_cons]
      omega
  | case7 s index d₁ d₂ d₃ d₄ rest unit hcode hpair hshort hquote =>
      have hle := read_pair_le hcode hpair hmore
      have hlength := length_of_no_pair hshort
      simp only [List.length_cons]
      omega
  | case8 s index closed d₁ d₂ d₃ d₄ rest unit hcode hpair hquote ih =>
      simp only [List.cons_append] at hmore
      rw [StringState.read] at hmore
      simp only [hcode, hquote, hpair, if_true, if_false] at hmore
      have hreach := ih h hmore
      simp only [List.length_cons]
      omega
  | case9 s index rest hshort hquote =>
      have hle := read_unit_le hmore
      have hlength := length_of_no_unit hshort
      simp only [List.length_cons]
      omega
  | case10 s index closed letter rest hletter c hc hquote ih =>
      simp only [List.cons_append] at hmore
      rw [StringState.read] at hmore
      simp only [hc, hquote, hletter, if_true, if_false] at hmore
      have hreach := ih h hmore
      simp only [List.length_cons]
      omega
  | case11 s index closed letter rest hletter hc hquote ih =>
      simp only [List.cons_append] at hmore
      rw [StringState.read] at hmore
      simp only [hc, hquote, hletter, if_true, if_false] at hmore
      have hreach := ih h hmore
      simp only [List.length_cons]
      omega
  | case12 s index b rest hquote hslash noted ih =>
      rw [List.cons_append, StringState.read] at hmore
      simp only [hquote, hslash, if_false] at hmore
      have hreach := ih h hmore
      rw [List.length_cons]
      omega

end

theorem Token.readString_reach {bytes part : List UInt8} {t : Token}
    {more : Nat} (h : readString bytes = .unfinished)
    (hmore : readString (bytes ++ part) = .token t more) :
    bytes.length ≤ more := by
  rw [readString_eq] at h hmore
  have hreach := StringState.read_reach h hmore
  omega

/-! ## All tokens -/

/-- What was waited for is no shorter than what was at hand. -/
theorem Token.read_reach {ending : Bool} {b : UInt8} {rest part : List UInt8}
    {t : Token} {more : Nat} (h : Token.read false b rest = .unfinished)
    (hmore : Token.read ending b (rest ++ part) = .token t more) :
    rest.length ≤ more := by
  revert hmore
  unfold Token.read at h ⊢
  split at h
  case h_1 | h_2 | h_3 | h_4 | h_5 | h_6 => cases h
  case h_7 => exact readString_reach h
  case h_8 | h_9 | h_10 => exact readWord_reach h
  case h_11 =>
      intro hmore
      cases hmore
  case h_12 =>
      intro hmore
      split at h
      · next hnum =>
          rw [if_pos hnum] at hmore
          exact readNumber_reach h hmore
      · cases h

end Ridership.Json

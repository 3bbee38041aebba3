import Ridership.Proofs.TextEnd

/-!
# A byte beyond ASCII ends a token as the end of the text does

Tokens are written in ASCII, all but strings. So a byte beyond ASCII
(`Foreign`) that comes behind a number or a word is no part of it, and tells
just what the end of the text would tell: the digits that are there are all the
digits there will be, and a word that lacks a letter will not get it. What is
wrong is told in other words, since one fault is a byte in a wrong place and the
other the end in a wrong place; so it is tokens that are compared, and not
faults. Where no token is under way, such a byte begins none.

A string may have bytes of any kind. It ends at its quote alone, and as long as
none comes it waits.
-/

namespace Ridership.Json

/-! ## Foreign bytes -/

/-- A byte beyond ASCII. Only strings have such bytes. -/
def Foreign (x : UInt8) : Prop :=
  0x80 ≤ x.toNat

instance (x : UInt8) : Decidable (Foreign x) :=
  inferInstanceAs (Decidable (0x80 ≤ x.toNat))

namespace Foreign

variable {x : UInt8} (hx : Foreign x)

include hx

theorem ne {b : UInt8} (hb : b.toNat < 0x80) : x ≠ b := by
  rintro rfl
  exact absurd hx (Nat.not_le_of_lt hb)

theorem not_isDigit : isDigit x = false := by
  have hlarge : ¬ x ≤ 0x39 := fun h =>
    absurd (Nat.le_trans hx (UInt8.le_iff_toNat_le.mp h)) (by decide)
  simp [isDigit, hlarge]

theorem takeWhile_digits (bytes tail : List UInt8) :
    (bytes ++ x :: tail).takeWhile isDigit = bytes.takeWhile isDigit := by
  induction bytes with
  | nil => simp [hx.not_isDigit]
  | cons b bytes ih =>
      rw [List.cons_append, List.takeWhile_cons, List.takeWhile_cons, ih]

theorem dropWhile_digits (bytes tail : List UInt8) :
    (bytes ++ x :: tail).dropWhile isDigit
      = bytes.dropWhile isDigit ++ x :: tail := by
  induction bytes with
  | nil => simp [hx.not_isDigit]
  | cons b bytes ih =>
      rw [List.cons_append, List.dropWhile_cons, List.dropWhile_cons, ih]
      split <;> rfl

end Foreign

/-! ## Numbers and words -/

/-- A word is read where it stands in front. -/
theorem Token.readWord_eq_token {ending : Bool} {word : String} {t t' : Token}
    {bytes : List UInt8} {more : Nat} :
    readWord ending word t bytes = .token t' more ↔
      Text.Utf8.encode word <+: bytes ∧
        t = t' ∧ (Text.Utf8.encode word).length - 1 = more := by
  unfold readWord
  simp only [List.prefix_iff_eq_take]
  split
  · next hshort =>
      refine iff_of_false Lexeme.noConfusion fun h => ?_
      rw [← h.1] at hshort
      exact absurd hshort (Nat.lt_irrefl _)
  · split
    · next hfound => simp [hfound]
    · next hfound =>
        refine iff_of_false ?_ fun h => absurd h.1.symm hfound
        split <;> exact Lexeme.noConfusion

/-- Two spans that are complete together. -/
def NumberSpan.Alike (a b : NumberSpan) : Prop :=
  ∀ length, a = .complete length ↔ b = .complete length

section

variable {x : UInt8} (hx : Foreign x) (tail : List UInt8)

include hx

theorem NumberSpan.lastDigits_foreign (index : Nat) (bytes : List UInt8) :
    lastDigits false index (bytes ++ x :: tail)
      = lastDigits true index bytes := by
  rw [lastDigits, lastDigits, hx.takeWhile_digits, hx.dropWhile_digits]
  simp

theorem NumberSpan.exponent_foreign (index : Nat) (bytes : List UInt8) :
    (exponent false index (bytes ++ x :: tail)).Alike
      (exponent true index bytes) := by
  intro length
  match bytes with
  | [] =>
      have hmark : ¬(x = 0x65 ∨ x = 0x45) := by
        simp [hx.ne (b := 0x65) (by decide), hx.ne (b := 0x45) (by decide)]
      simp [exponent, hmark]
  | [mark] =>
      simp only [exponent, List.singleton_append]
      split
      · have hsign : ¬(x = 0x2B ∨ x = 0x2D) := by
          simp [hx.ne (b := 0x2B) (by decide), hx.ne (b := 0x2D) (by decide)]
        simp [hsign, hx.not_isDigit]
      · rfl
  | [mark, sign] =>
      simp only [exponent, List.cons_append, List.nil_append]
      split
      · split
        · simp [hx.not_isDigit]
        · split
          · exact iff_of_eq (congrArg (· = _) (lastDigits_foreign hx tail _ []))
          · rfl
      · rfl
  | mark :: sign :: digit :: rest =>
      simp only [exponent, List.cons_append]
      split
      · split
        · split
          · rw [lastDigits_foreign hx]
          · rfl
        · split
          · exact iff_of_eq (congrArg (· = _)
              (lastDigits_foreign hx tail _ (digit :: rest)))
          · rfl
      · rfl

theorem NumberSpan.fraction_foreign (index : Nat) (bytes : List UInt8) :
    (fraction false index (bytes ++ x :: tail)).Alike
      (fraction true index bytes) := by
  intro length
  match bytes with
  | [] =>
      have hpoint := hx.ne (b := 0x2E) (by decide)
      simp only [fraction, List.nil_append, if_neg hpoint]
      exact exponent_foreign hx tail index [] length
  | [point] =>
      simp only [fraction, List.cons_append, List.nil_append]
      split
      · simp [hx.not_isDigit]
      · exact exponent_foreign hx tail index [point] length
  | point :: digit :: rest =>
      simp only [fraction, List.cons_append]
      split
      · split
        · rw [hx.takeWhile_digits, hx.dropWhile_digits]
          exact exponent_foreign hx tail _ _ length
        · rfl
      · exact exponent_foreign hx tail index (point :: digit :: rest) length

theorem NumberSpan.integer_foreign (index : Nat) (bytes : List UInt8) :
    (integer false index (bytes ++ x :: tail)).Alike
      (integer true index bytes) := by
  intro length
  match bytes with
  | [] => simp [integer, hx.ne (b := 0x30) (by decide), hx.not_isDigit]
  | digit :: rest =>
      simp only [integer, List.cons_append]
      split
      · exact fraction_foreign hx tail _ rest length
      · split
        · rw [hx.takeWhile_digits, hx.dropWhile_digits]
          exact fraction_foreign hx tail _ _ length
        · rfl

theorem NumberSpan.of_foreign {b : UInt8} (rest : List UInt8) :
    (NumberSpan.of false (b :: rest ++ x :: tail)).Alike
      (NumberSpan.of true (b :: rest)) := by
  by_cases hb : b = 0x2D
  · subst hb
    exact integer_foreign hx tail 1 rest
  · rw [List.cons_append, of_cons hb, of_cons hb,
      ← List.cons_append]
    exact integer_foreign hx tail 0 (b :: rest)

theorem Token.readNumber_foreign {b : UInt8} {rest : List UInt8} {t : Token}
    {more : Nat} :
    readNumber false (b :: rest ++ x :: tail) = .token t more ↔
      readNumber true (b :: rest) = .token t more := by
  have halike := NumberSpan.of_foreign hx tail (b := b) rest
  have hin := NumberSpan.of_within true (b :: rest)
  unfold readNumber
  cases hend : NumberSpan.of true (b :: rest) with
  | complete length =>
      rw [hend] at hin
      rw [(halike length).mpr hend]
      dsimp only
      rw [List.take_append_of_le_length hin]
  | unfinished | fault =>
      have hnot (length : Nat) :
          NumberSpan.of false (b :: rest ++ x :: tail) ≠ .complete length :=
        fun h => by
          have hcomplete := (halike length).mp h
          rw [hend] at hcomplete
          cases hcomplete
      split <;> simp_all

theorem Token.readWord_foreign {word : String} {t t' : Token}
    (bytes : List UInt8) {more : Nat}
    (hword : (Text.Utf8.encode word).all (·.toNat < 0x80) = true) :
    readWord false word t (bytes ++ x :: tail) = .token t' more ↔
      readWord true word t bytes = .token t' more := by
  rw [readWord_eq_token, readWord_eq_token]
  refine and_congr_left fun _ => ⟨fun h => ?_, fun h => h.trans ?_⟩
  · rcases List.prefix_or_prefix_of_prefix h (List.prefix_append bytes _) with
      hin | ⟨back, hback⟩
    · exact hin
    · rw [← hback, List.prefix_append_right_inj] at h
      cases back with
      | nil => exact ⟨[], by rw [← hback, List.append_nil, List.append_nil]⟩
      | cons b back =>
          obtain ⟨rfl, -⟩ := List.cons_prefix_cons.mp h
          have hb := List.all_eq_true.mp hword b (by simp [← hback])
          exact absurd rfl (hx.ne (of_decide_eq_true hb))
  · exact List.prefix_append bytes _

/-- Outside of a string a foreign byte leads to the token that the end of the
text would lead to. -/
theorem Token.read_foreign {b : UInt8} {rest : List UInt8} {t : Token}
    {more : Nat} (hb : Char.ofNat b.toNat ≠ '"') :
    Token.read false b (rest ++ x :: tail) = .token t more ↔
      Token.read true b rest = .token t more := by
  unfold Token.read
  split
  case h_1 | h_2 | h_3 | h_4 | h_5 | h_6 => rfl
  case h_7 heq => exact absurd heq hb
  case h_8 | h_9 | h_10 => exact readWord_foreign hx tail (b :: rest) rfl
  case h_11 => rfl
  case h_12 =>
      split
      · exact readNumber_foreign hx tail
      · rfl

end

/-! ## Strings -/

/-- What is told of a string is told at a quote. -/
theorem StringState.read_at_quote {s : StringState} {index : Nat}
    {bytes : List UInt8} (h : s.read index bytes ≠ .unfinished) :
    ∃ front back, bytes = front ++ 0x22 :: back ∧
      s.read index (front ++ [0x22]) ≠ .unfinished := by
  fun_induction StringState.read s index bytes with
  | case1 | case4 | case7 | case9 => exact absurd rfl h
  | case2 s index rest | case3 s index rest =>
      refine ⟨[], rest, rfl, ?_⟩
      rw [List.nil_append, StringState.read, if_pos rfl]
      dsimp only
      split <;> exact Lexeme.noConfusion
  | case5 s index closed d₁ d₂ d₃ d₄ rest bad hcode hquote ih =>
      obtain ⟨front, back, rfl, hfront⟩ := ih h
      refine ⟨0x5C :: 0x75 :: d₁ :: d₂ :: d₃ :: d₄ :: front, back, rfl, ?_⟩
      simp only [List.cons_append]
      rw [StringState.read]
      simpa only [hcode, hquote, if_true, if_false] using hfront
  | case6 s index closed d₁ d₂ d₃ d₄ unit hcode hpair slash u e₁ e₂ e₃ e₄ rest
      hquote ih =>
      obtain ⟨front, back, rfl, hfront⟩ := ih h
      refine ⟨0x5C :: 0x75 :: d₁ :: d₂ :: d₃ :: d₄ :: slash :: u :: e₁ :: e₂
        :: e₃ :: e₄ :: front, back, rfl, ?_⟩
      simp only [List.cons_append]
      rw [StringState.read]
      simpa only [hcode, hquote, hpair, if_true, if_false] using hfront
  | case8 s index closed d₁ d₂ d₃ d₄ rest unit hcode hpair hquote ih =>
      obtain ⟨front, back, rfl, hfront⟩ := ih h
      refine ⟨0x5C :: 0x75 :: d₁ :: d₂ :: d₃ :: d₄ :: front, back, rfl, ?_⟩
      simp only [List.cons_append]
      rw [StringState.read]
      simpa only [hcode, hquote, hpair, if_true, if_false,
        Bool.false_eq_true] using hfront
  | case10 s index closed letter rest hletter c hc hquote ih =>
      obtain ⟨front, back, rfl, hfront⟩ := ih h
      refine ⟨0x5C :: letter :: front, back, rfl, ?_⟩
      simp only [List.cons_append]
      rw [StringState.read]
      simpa only [hc, hquote, hletter, if_true, if_false] using hfront
  | case11 s index closed letter rest hletter hc hquote ih =>
      obtain ⟨front, back, rfl, hfront⟩ := ih h
      refine ⟨0x5C :: letter :: front, back, rfl, ?_⟩
      simp only [List.cons_append]
      rw [StringState.read]
      simpa only [hc, hquote, hletter, if_true, if_false] using hfront
  | case12 s index b rest hquote hslash noted ih =>
      obtain ⟨front, back, rfl, hfront⟩ := ih h
      refine ⟨b :: front, back, rfl, ?_⟩
      rw [List.cons_append, StringState.read]
      simpa only [hquote, hslash, if_false] using hfront

/-- A string that waits for its quote waits on where no quote comes. -/
theorem Token.readString_append_of_not_mem {bytes more : List UInt8}
    (h : readString bytes = .unfinished) (hmore : 0x22 ∉ more) :
    readString (bytes ++ more) = .unfinished := by
  refine Decidable.byContradiction fun hread => ?_
  rw [readString_eq] at h hread
  obtain ⟨front, back, hsplit, hfront⟩ := StringState.read_at_quote hread
  -- The quote is not behind the bytes at hand, so they held a whole string.
  obtain ⟨rest, rfl⟩ : front ++ [0x22] <+: bytes := by
    rcases List.append_eq_append_iff.mp hsplit with
      ⟨more', rfl, hmore'⟩ | ⟨rest, rfl, hrest⟩
    · rw [hmore'] at hmore
      simp at hmore
    · cases rest with
      | nil =>
          obtain rfl : 0x22 :: back = more := by simpa using hrest
          simp at hmore
      | cons b rest =>
          obtain ⟨rfl, -⟩ := List.cons.inj hrest
          exact ⟨rest, by simp⟩
  rw [StringState.read_append hfront] at h
  exact hfront h

/-! ## Where no token is under way -/

theorem toNat_ofNat_byte (b : UInt8) :
    (Char.ofNat b.toNat).toNat = b.toNat := by
  have hb := b.toNat_lt
  rw [Char.ofNat, dif_pos (.inl (by omega))]
  rfl

namespace Foreign

variable {x : UInt8} (hx : Foreign x)

include hx

theorem toChar_ne {c : Char} (hc : c.toNat < 0x80) :
    Char.ofNat x.toNat ≠ c := by
  rintro rfl
  rw [toNat_ofNat_byte] at hc
  exact absurd hx (Nat.not_le_of_lt hc)

theorem read_ne_token (tail : List UInt8) (t : Token) (more : Nat) :
    Token.read false x tail ≠ .token t more := by
  unfold Token.read
  split
  case h_12 =>
      rw [if_neg]
      · exact Lexeme.noConfusion
      · simp [hx.not_isDigit, hx.toChar_ne (c := '-') (by decide)]
  all_goals
    next heq => exact absurd heq (hx.toChar_ne (by decide))

end Foreign

end Ridership.Json

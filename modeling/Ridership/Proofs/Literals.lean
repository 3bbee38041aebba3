import Mathlib.Data.List.DropRight
import Mathlib.Data.List.TakeWhile
import Ridership.Decimal.Numeral
import Ridership.Json.Value

/-!
# What is written for a number

It is a literal: digits with no zero in front of others, perhaps a fraction,
perhaps an exponent, and a sign before it all. The zero is what has to be
watched. The shortest decimal of a number begins with a zero only if it is zero
itself, and then its exponent is none, so no zeros are put behind it.

Only what is no finite number has no literal; `null` is written for it.
-/

namespace Ridership.Decimal

/-! ## Literals -/

/-- Digits, at least one. -/
structure IsDigits (cs : List Char) : Prop where
  digits : ∀ c ∈ cs, c.isDigit = true
  nonempty : cs ≠ []

/-- Digits before a point: a zero stands alone. -/
structure IsWhole (cs : List Char) : Prop extends IsDigits cs where
  alone : cs.head? = some '0' → cs = ['0']

/-- What may follow the digits before a point. -/
def IsFraction (cs : List Char) : Prop :=
  cs = [] ∨ ∃ ds, cs = '.' :: ds ∧ IsDigits ds

/-- What may follow a fraction. -/
def IsExponent (cs : List Char) : Prop :=
  cs = [] ∨
    ∃ sign ds, cs = 'e' :: sign :: ds ∧ (sign = '+' ∨ sign = '-') ∧ IsDigits ds

/-- A literal without a sign. -/
def IsUnsigned (cs : List Char) : Prop :=
  ∃ whole fraction exponent, cs = whole ++ fraction ++ exponent ∧
    IsWhole whole ∧ IsFraction fraction ∧ IsExponent exponent

/-- A literal. -/
def IsLiteral (cs : List Char) : Prop :=
  IsUnsigned cs ∨ ∃ rest, cs = '-' :: rest ∧ IsUnsigned rest

theorem IsUnsigned.exists_cons {cs : List Char} (h : IsUnsigned cs) :
    ∃ d more, cs = d :: more ∧ d.isDigit = true := by
  obtain ⟨whole, fraction, exponent, rfl, hwhole, -, -⟩ := h
  obtain ⟨d, ds, rfl⟩ := List.exists_cons_of_ne_nil hwhole.nonempty
  exact ⟨d, ds ++ fraction ++ exponent, by simp,
    hwhole.digits d List.mem_cons_self⟩

/-- Besides digits a literal has only a few marks. -/
theorem IsLiteral.mem_cases {cs : List Char} (h : IsLiteral cs) {c : Char}
    (hc : c ∈ cs) :
    c.isDigit = true ∨ c = '.' ∨ c = 'e' ∨ c = '+' ∨ c = '-' := by
  have hunsigned {cs : List Char} (h : IsUnsigned cs) (hc : c ∈ cs) :
      c.isDigit = true ∨ c = '.' ∨ c = 'e' ∨ c = '+' ∨ c = '-' := by
    obtain ⟨whole, fraction, exponent, rfl, hwhole, hfraction, hexponent⟩ := h
    rw [List.append_assoc, List.mem_append, List.mem_append] at hc
    rcases hc with hc | hc | hc
    · exact .inl (hwhole.digits c hc)
    · obtain rfl | ⟨ds, rfl, hds⟩ := hfraction
      · exact absurd hc List.not_mem_nil
      · rcases List.mem_cons.mp hc with hpoint | hc
        · exact .inr (.inl hpoint)
        · exact .inl (hds.digits c hc)
    · obtain rfl | ⟨sign, ds, rfl, hsign, hds⟩ := hexponent
      · exact absurd hc List.not_mem_nil
      · rcases List.mem_cons.mp hc with hmark | hc
        · exact .inr (.inr (.inl hmark))
        rcases List.mem_cons.mp hc with rfl | hc
        · exact .inr (.inr (.inr hsign))
        · exact .inl (hds.digits c hc)
  obtain h | ⟨rest, rfl, h⟩ := h
  · exact hunsigned h hc
  · rcases List.mem_cons.mp hc with hminus | hc
    · exact .inr (.inr (.inr (.inr hminus)))
    · exact hunsigned h hc

/-! ## Whole numbers -/

theorem toList_repr (n : Nat) : (toString n).toList = Nat.toDigits 10 n := by
  rw [Nat.toString_eq_ofList_toDigits, String.toList_ofList]

theorem toDigits_isDigit (n : Nat) :
    ∀ c ∈ Nat.toDigits 10 n, c.isDigit = true := by
  intro c hc
  exact Nat.isDigit_of_mem_toDigits (by omega) (by omega) hc

theorem leadingDigits_digits {cs : List Char}
    (h : ∀ c ∈ cs, c.isDigit = true) :
    leadingDigits cs = (cs.map fun c => c.toNat - '0'.toNat, []) := by
  rw [leadingDigits, List.takeWhile_eq_self_iff.mpr h,
    List.dropWhile_eq_nil_iff.mpr h]

/-- The digits of a number spell it. -/
theorem foldl_toDigits (n : Nat) :
    ((Nat.toDigits 10 n).map fun c => c.toNat - '0'.toNat).foldl
      (fun n d => n * 10 + d) 0 = n := by
  have hback := @Nat.ofDigitChars_ten_toDigits n
  rw [Nat.ofDigitChars] at hback
  rw [List.foldl_map]
  simpa only [Nat.mul_comm 10] using hback

theorem digitChar_ne_zero {n : Nat} (hpos : 0 < n) (hn : n < 10) :
    Nat.digitChar n ≠ '0' := by
  have hall : ∀ k < 10, 0 < k → Nat.digitChar k ≠ '0' := by decide
  exact hall n hn hpos

/-- Only zero begins with a zero. -/
theorem head?_toDigits_ne {n : Nat} (hpos : 0 < n) :
    (Nat.toDigits 10 n).head? ≠ some '0' := by
  induction n using Nat.strongRecOn with
  | ind n ih =>
      rw [Nat.toDigits_eq_if (by omega)]
      split
      · next hn =>
          intro h
          exact digitChar_ne_zero hpos hn (Option.some.inj h)
      · rw [List.head?_append_of_ne_nil _ Nat.toDigits_ne_nil]
        exact ih (n / 10) (by omega) (by omega)

theorem isDigits_zero : IsDigits ['0'] where
  digits := by
    intro c hc
    obtain rfl := List.mem_singleton.mp hc
    rfl
  nonempty := List.cons_ne_nil _ _

theorem isDigits_toDigits (n : Nat) : IsDigits (Nat.toDigits 10 n) :=
  ⟨toDigits_isDigit n, Nat.toDigits_ne_nil⟩

theorem isWhole_toDigits (n : Nat) : IsWhole (Nat.toDigits 10 n) where
  toIsDigits := isDigits_toDigits n
  alone := by
    intro h
    rcases Nat.eq_zero_or_pos n with rfl | hpos
    · rfl
    · exact absurd h (head?_toDigits_ne hpos)

theorem isUnsigned_toDigits (n : Nat) : IsUnsigned (Nat.toDigits 10 n) :=
  ⟨_, [], [], by simp, isWhole_toDigits n, .inl rfl, .inl rfl⟩

/-! ## Numbers in scientific form -/

/-- The digits of a decimal begin with a zero only if it is zero. -/
structure Scientific.Proper (s : Scientific) : Prop extends
    IsDigits s.digits where
  zero : s.digits.head? = some '0' → s.digits = ['0'] ∧ s.exponent = 0

theorem significantDigits_eq (n : Nat) :
    significantDigits n = (Nat.toDigits 10 n).rdropWhile (· == '0') :=
  rfl

theorem significantDigits_leads (n : Nat) :
    significantDigits n <+: Nat.toDigits 10 n :=
  List.rdropWhile_prefix _ _

theorem significantDigits_isDigit (n : Nat) :
    ∀ c ∈ significantDigits n, c.isDigit = true := fun c hc =>
  toDigits_isDigit n c ((significantDigits_leads n).subset hc)

theorem significantDigits_ne_nil {n : Nat} (hpos : 0 < n) :
    significantDigits n ≠ [] := by
  rw [significantDigits_eq]
  intro h
  have hzeros := List.rdropWhile_eq_nil_iff.mp h
  obtain ⟨c, cs, hcs⟩ := List.exists_cons_of_ne_nil Nat.toDigits_ne_nil
  have hhead := head?_toDigits_ne hpos
  rw [hcs] at hzeros hhead
  have hc : (c == '0') = true := hzeros c List.mem_cons_self
  rw [beq_iff_eq] at hc
  exact hhead (congrArg some hc)

theorem head?_significantDigits {n : Nat} (hpos : 0 < n) :
    (significantDigits n).head? ≠ some '0' := by
  obtain ⟨zeros, hzeros⟩ := significantDigits_leads n
  have hhead := head?_toDigits_ne hpos
  rw [← hzeros, List.head?_append_of_ne_nil _ (significantDigits_ne_nil hpos)]
    at hhead
  exact hhead

theorem Scientific.zero_proper : Scientific.Proper ⟨['0'], 0⟩ where
  toIsDigits := isDigits_zero
  zero := fun _ => ⟨rfl, rfl⟩

theorem Scientific.ofNat_proper (n : Nat) (k : Int) : (ofNat n k).Proper := by
  rw [ofNat]
  split
  · exact zero_proper
  · next hn =>
      have hpos : 0 < n := Nat.pos_of_ne_zero hn
      refine ⟨⟨significantDigits_isDigit n, significantDigits_ne_nil hpos⟩, ?_⟩
      intro h
      exact absurd h (head?_significantDigits hpos)

theorem shortest_proper (tie : Tie) (x : Float) : (shortest tie x).Proper := by
  rw [shortest]
  split
  dsimp only
  split
  · exact Scientific.zero_proper
  · exact Scientific.ofNat_proper _ _

theorem zeros_isDigit (n : Nat) :
    ∀ c ∈ List.replicate n '0', c.isDigit = true := by
  intro c hc
  rw [List.eq_of_mem_replicate hc]
  decide

theorem IsDigits.behind_zeros {cs : List Char} (h : IsDigits cs) (n : Nat) :
    IsDigits (List.replicate n '0' ++ cs) where
  digits := List.forall_mem_append.mpr ⟨zeros_isDigit n, h.digits⟩
  nonempty := List.append_ne_nil_of_right_ne_nil _ h.nonempty

theorem IsDigits.before_zeros {cs : List Char} (h : IsDigits cs) (n : Nat) :
    IsDigits (cs ++ List.replicate n '0') where
  digits := List.forall_mem_append.mpr ⟨h.digits, zeros_isDigit n⟩
  nonempty := List.append_ne_nil_of_left_ne_nil h.nonempty _

namespace Scientific.Proper

variable {s : Scientific} (h : s.Proper)

include h

/-- Zeros are put behind the digits only if there are others before them. -/
theorem isWhole_padded {n : Nat} (hn : s.exponent = n) :
    IsWhole (s.digits ++ List.replicate (n + 1 - s.digits.length) '0') where
  toIsDigits := h.toIsDigits.before_zeros _
  alone := by
    intro hhead
    rw [List.head?_append_of_ne_nil _ h.nonempty] at hhead
    obtain ⟨hdigits, hexponent⟩ := h.zero hhead
    rw [hn] at hexponent
    obtain rfl : n = 0 := Int.ofNat_eq_zero.mp hexponent
    rw [hdigits]
    rfl

theorem isWhole_take {n : Nat} (hlength : n + 1 < s.digits.length) :
    IsWhole (s.digits.take (n + 1)) where
  digits := fun c hc => h.digits c (List.mem_of_mem_take hc)
  nonempty := by simp [h.nonempty]
  alone := by
    intro hhead
    rw [List.head?_take, if_neg (by omega)] at hhead
    rw [(h.zero hhead).1, List.length_singleton] at hlength
    omega

theorem isDigits_drop {n : Nat} (hlength : n < s.digits.length) :
    IsDigits (s.digits.drop n) where
  digits := fun c hc => h.digits c (List.mem_of_mem_drop hc)
  nonempty := by
    rw [Ne, List.drop_eq_nil_iff]
    omega

theorem isUnsigned_positional : IsUnsigned (s.positional ".0").toList := by
  rw [positional]
  split
  · next n _ =>
      refine ⟨['0'], '.' :: (List.replicate n '0' ++ s.digits), [], ?_,
        ⟨isDigits_zero, fun _ => rfl⟩,
        .inr ⟨_, rfl, h.toIsDigits.behind_zeros n⟩, .inl rfl⟩
      simp [zeros]
  · next n hn =>
      split
      · refine ⟨_, ['.', '0'], [], ?_, h.isWhole_padded hn,
          .inr ⟨['0'], rfl, isDigits_zero⟩, .inl rfl⟩
        simp [zeros]
      · next hlength =>
          have hlength := Nat.lt_of_not_le hlength
          refine ⟨_, '.' :: s.digits.drop (n + 1), [], ?_, h.isWhole_take hlength,
            .inr ⟨_, rfl, h.isDigits_drop hlength⟩, .inl rfl⟩
          simp

theorem isUnsigned_exponential : IsUnsigned s.exponential.toList := by
  have hexponent {sign : Char} (hsign : sign = '+' ∨ sign = '-') (n : Nat) :
      IsExponent ('e' :: sign :: (toString n).toList) := by
    rw [toList_repr]
    exact .inr ⟨sign, _, rfl, hsign, isDigits_toDigits n⟩
  have hmantissa {mantissa : String} {d : Char} {fraction : List Char}
      (hd : d.isDigit = true) (hfraction : IsFraction fraction)
      (hlist : mantissa.toList = d :: fraction) :
      ∀ n : Nat, IsUnsigned (mantissa ++ "e+" ++ toString n).toList ∧
        IsUnsigned (mantissa ++ "e-" ++ toString (n + 1)).toList := by
    intro n
    have hwhole : IsWhole [d] := by
      refine ⟨⟨by simpa using hd, by simp⟩, fun hhead => ?_⟩
      rw [Option.some.inj hhead]
    refine ⟨⟨_, _, _, ?_, hwhole, hfraction, hexponent (.inl rfl) n⟩,
      ⟨_, _, _, ?_, hwhole, hfraction, hexponent (.inr rfl) (n + 1)⟩⟩
    · simp [hlist]
    · simp [hlist]
  have hdigits := h.digits
  rw [exponential]
  -- The digits are written in three ways, each with either sign behind it.
  rcases hs : s.digits with _ | ⟨d, _ | ⟨d', more⟩⟩
  · exact absurd hs h.nonempty
  · rw [hs] at hdigits
    have hone := hmantissa (hdigits d List.mem_cons_self) (.inl rfl)
      (String.toList_ofList)
    split
    · exact (hone _).1
    · exact (hone _).2
  · rw [hs] at hdigits
    have hfraction : IsFraction ('.' :: d' :: more) :=
      .inr ⟨_, rfl, fun c hc => hdigits c (List.mem_cons_of_mem d hc),
        by simp⟩
    have hmany := hmantissa (hdigits d List.mem_cons_self) hfraction
      (String.toList_ofList)
    split
    · exact (hmany _).1
    · exact (hmany _).2

end Scientific.Proper

theorem not_nan_inf_of_isFinite {x : Float} (h : x.isFinite = true) :
    x.isNaN = false ∧ x.isInf = false := by
  have hunpacked : x.toModel.unpack.isFinite = true := h
  show x.toModel.unpack.isNaN = false ∧ x.toModel.unpack.isInf = false
  cases hu : x.toModel.unpack with
  | notANumber => rw [hu] at hunpacked; cases hunpacked
  | infinity sign => rw [hu] at hunpacked; cases hunpacked
  | zero sign => exact ⟨rfl, rfl⟩
  | finite sign mantissa exponent hpos => exact ⟨rfl, rfl⟩

/-- What JSON texts write for a finite number is a literal. -/
theorem isLiteral_render {x : Float} (h : x.isFinite = true) :
    IsLiteral (Json.numberStyle.render x).toList := by
  obtain ⟨hnan, hinf⟩ := not_nan_inf_of_isFinite h
  have hproper := shortest_proper Json.numberStyle.tie x
  have hmagnitude {cs : String} (hcs : IsUnsigned cs.toList) :
      IsLiteral (if isNegative x then "-" ++ cs else cs).toList := by
    split
    · refine .inr ⟨cs.toList, ?_, hcs⟩
      rw [String.toList_append]
      rfl
    · exact .inl hcs
  rw [Style.render, hnan, hinf]
  apply hmagnitude
  show IsUnsigned (String.toList
    (if -5 ≤ (shortest _ x).exponent ∧ (shortest _ x).exponent ≤ 15 then _
      else _))
  split
  · exact hproper.isUnsigned_positional
  · exact hproper.isUnsigned_exponential

end Ridership.Decimal

namespace Ridership.Json

open Decimal

theorem Number.isLiteral_whole (n : Int) :
    IsLiteral (Number.whole n).text.toList := by
  match n with
  | .ofNat n =>
      show IsLiteral (toString n).toList
      rw [toList_repr]
      exact .inl (isUnsigned_toDigits n)
  | .negSucc n =>
      show IsLiteral ("-" ++ toString (n + 1)).toList
      rw [String.toList_append, toList_repr]
      exact .inr ⟨_, rfl, isUnsigned_toDigits (n + 1)⟩

theorem Number.isLiteral_float {x : Float} (h : x.isFinite = true) :
    IsLiteral (Number.float x).text.toList := by
  rw [Number.text, if_pos h]
  exact isLiteral_render h

theorem Number.text_of_not_isFinite {x : Float} (h : ¬ x.isFinite = true) :
    (Number.float x).text = "null" := by
  rw [Number.text, if_neg h]

end Ridership.Json

import Ridership.Forecast.Cdf
import Ridership.Proofs.NumberOrder

/-!
# Counts, their middles and their shares as numbers

A count of passengers has thirty-two bits, and a number has room for
fifty-three. So a count is exact as a number, the sum of two is, and the half of
that is as well: `value_count` and `value_midpoint` say so. Behind both is one
form for the parts of a number. A count of a power of two is moved up until it
fills the mantissa (`dyadic`), and rounding, packing, adding and halving all
lead from such parts to such parts, because only zeros are ever moved out at the
lower end.

A share of a count is rounded, and there is nothing exact to say of it. What
matters is that it is a number, and that it cannot be a zero with a minus
(`unsigned_share`): for numbers without a sign, equal values are equal numbers.
-/

namespace Ridership.Binary64

open Float.Model (Format UnpackedFloat totalExponent)
open Float.Model.UnpackedFloat

/-! ## Rounding what needs none -/

theorem log2_shifted {m : Nat} (hm : 0 < m) (j : Nat) :
    (m * 2 ^ j).log2 = m.log2 + j := by
  have hpow := Nat.two_pow_pos j
  rw [Nat.log2_eq_iff (Nat.mul_ne_zero hm.ne' hpow.ne'), Nat.pow_add,
    Nat.add_right_comm, Nat.pow_add]
  exact ⟨Nat.mul_le_mul_right _ (Nat.log2_self_le hm.ne'),
    Nat.mul_lt_mul_of_pos_right Nat.lt_log2_self hpow⟩

/-- Zeros behind a mantissa are shifted out without a trace. -/
theorem shiftRight_zeros (m j : Nat) :
    (ExtendedMantissa.mk (m * 2 ^ j) false false) >>> j
      = ⟨m, false, false⟩ := by
  show j.repeat ExtendedMantissa.shiftRightOne _ = _
  induction j generalizing m with
  | zero => simp [Nat.repeat]
  | succ j ih =>
      rw [Nat.repeat, Nat.pow_succ', ← Nat.mul_assoc, ih]
      simp [ExtendedMantissa.shiftRightOne]

theorem targetExponent_eq (m : Nat) (e : Int) :
    Format.binary64.targetExponent (totalExponent m e)
      = max (m.log2 + e - 52) (-1074) := by
  have h53 : ((Format.binary64.mantissaBits : Nat) : Int) = 53 := rfl
  have hmin : Format.binary64.minExponent = -1074 := rfl
  rw [Format.targetExponent, totalExponent, h53, hmin]
  omega

section

variable {m j : Nat} {e : Int}

theorem shiftToTargetExponent_zeros (hm : 2 ^ 52 ≤ m) (hm' : m < 2 ^ 53)
    (he : -1074 ≤ e + j) :
    shiftToTargetExponent Format.binary64 (m * 2 ^ j) e .exact
      = (⟨m, false, false⟩, e + j) := by
  have hlog : (m * 2 ^ j).log2 = 52 + j := by
    rw [log2_shifted (by omega), log2_of_full hm hm']
  have hamount : (max (((52 + j : Nat) : Int) + e - 52) (-1074) - e).toNat
      = j := by omega
  rw [shiftToTargetExponent, targetExponent_eq, hlog, shiftToExponent]
  simp only [hamount]
  exact congrArg (·, e + (j : Int)) (shiftRight_zeros m j)

/-- Nothing is rounded where only zeros are moved out. -/
theorem roundWithAccuracy_zeros (s : Sign) (hm : 2 ^ 52 ≤ m)
    (hm' : m < 2 ^ 53) (he : -1074 ≤ e + j) :
    roundWithAccuracy Format.binary64 s (m * 2 ^ j) e .exact
      = .finite s m (e + j) (by omega) := by
  have hleast : -1074 ≤ (e + j : Int) + (0 : Nat) := by omega
  have hagain := shiftToTargetExponent_zeros hm hm' hleast
  rw [Nat.pow_zero, Nat.mul_one, Int.natCast_zero, Int.add_zero] at hagain
  rw [roundWithAccuracy, shiftToTargetExponent_zeros hm hm' he]
  simp only [ExtendedMantissa.roundedMantissa, ExtendedMantissa.accuracy,
    Accuracy.roundToNearestEven, hagain]
  rw [dif_neg (by omega)]

end

/-! ## Counts of a power of two -/

/-- So many times a power of two, in the parts that its number has. -/
def dyadic (c : Nat) (k : Int) : UnpackedFloat :=
  if h : c = 0 then .zero .positive
  else .finite .positive (c * 2 ^ (52 - c.log2)) (c.log2 - 52 + k)
    (Nat.mul_pos (Nat.pos_of_ne_zero h) (Nat.two_pow_pos _))

section

variable {c : Nat}

@[simp] theorem dyadic_zero (k : Int) : dyadic 0 k = .zero .positive :=
  rfl

theorem dyadic_of_ne_zero (h : c ≠ 0) (k : Int) :
    dyadic c k = .finite .positive (c * 2 ^ (52 - c.log2)) (c.log2 - 52 + k)
      (Nat.mul_pos (Nat.pos_of_ne_zero h) (Nat.two_pow_pos _)) :=
  dif_neg h

theorem log2_le_of_lt (hc : c < 2 ^ 53) : c.log2 ≤ 52 := by
  by_cases h : c = 0
  · rw [h]
    decide
  · exact Nat.le_of_lt_succ ((Nat.log2_lt h).mpr hc)

/-- A count fills a mantissa when it is moved up as far as it goes. -/
theorem full_mantissa (h : c ≠ 0) (hc : c < 2 ^ 53) :
    2 ^ 52 ≤ c * 2 ^ (52 - c.log2) ∧ c * 2 ^ (52 - c.log2) < 2 ^ 53 := by
  have hlog := log2_le_of_lt hc
  have hfull : (c * 2 ^ (52 - c.log2)).log2 = 52 := by
    rw [log2_shifted (Nat.pos_of_ne_zero h)]
    omega
  exact (Nat.log2_eq_iff (Nat.mul_ne_zero h (Nat.two_pow_pos _).ne')).mp hfull

theorem worth_dyadic (hc : c < 2 ^ 53) (k : Int) :
    worth (dyadic c k) = ((c * 2 ^ k : ℝ) : EReal) := by
  rw [dyadic]
  split
  · next h => simp [h, worth]
  · next h =>
      have hlog := log2_le_of_lt hc
      have hexponent : k = ((52 - c.log2 : Nat) : Int) + (c.log2 - 52 + k) := by
        omega
      rw [worth, magnitude, Nat.cast_mul, Nat.cast_pow, Nat.cast_ofNat]
      conv_rhs => rw [hexponent, zpow_add₀ (by norm_num), zpow_natCast]
      rw [mul_assoc]

/-- Rounding a count of a power of two leaves it as it is. -/
theorem round_dyadic (h : c ≠ 0) (hc : c < 2 ^ 53) {j : Nat} {e : Int}
    (he : -1022 ≤ e + j) :
    UnpackedFloat.round Format.binary64 .positive (c * 2 ^ j) e
      = dyadic c (e + j) := by
  have hlog := log2_le_of_lt hc
  obtain ⟨hm, hm'⟩ := full_mantissa h hc
  rw [UnpackedFloat.round, targetExponent_eq,
    log2_shifted (Nat.pos_of_ne_zero h), dyadic_of_ne_zero h]
  simp only [decreaseExponent, Nat.shiftLeft_eq]
  -- The count is moved up to a full mantissa before it is rounded, or it comes
  -- with more zeros than fit, and rounding drops them.
  by_cases hup : c.log2 + j ≤ 52
  · have hamount : (e - max (((c.log2 + j : Nat) : Int) + e - 52)
        (-1074)).toNat = 52 - (c.log2 + j) := by omega
    have hmantissa : c * 2 ^ j * 2 ^ (52 - (c.log2 + j))
        = c * 2 ^ (52 - c.log2) * 2 ^ 0 := by
      rw [Nat.mul_assoc, ← Nat.pow_add, Nat.pow_zero, Nat.mul_one]
      congr 2
      omega
    rw [hamount, hmantissa, roundWithAccuracy_zeros _ hm hm' (by omega)]
    congr 1
    omega
  · have hamount : (e - max (((c.log2 + j : Nat) : Int) + e - 52)
        (-1074)).toNat = 0 := by omega
    have hmantissa : c * 2 ^ j * 2 ^ 0
        = c * 2 ^ (52 - c.log2) * 2 ^ (c.log2 + j - 52) := by
      rw [Nat.mul_assoc, Nat.mul_assoc, ← Nat.pow_add, ← Nat.pow_add]
      congr 2
      omega
    rw [hamount, hmantissa, roundWithAccuracy_zeros _ hm hm' (by omega)]
    congr 1
    omega

theorem unpackSign_packComponents (s : Sign) (e : BitVec 11)
    (m : BitVec 52) :
    Sign.ofBitVec (unpackSign (packComponents Format.binary64 s e m)) = s := by
  simp only [unpackSign, packComponents, BitVec.extractLsb]
  rw [BitVec.extractLsb'_append_eq_of_le (by omega),
    BitVec.extractLsb'_append_eq_of_le (by omega)]
  cases s <;> rfl

theorem unpack_full {s : Sign} {m : Nat} {e : Int} (h : 0 < m)
    (hm : 2 ^ 52 ≤ m) (hm' : m < 2 ^ 53) (he : -1074 ≤ e) (he' : e < 972) :
    (Float.Model.pack (.finite s m e h)).unpack = .finite s m e h := by
  show unpack Format.binary64 (pack Format.binary64 (.finite s m e h)) = _
  have hbits : (BitVec.ofNat 11 (e + 1075).toNat).toNat = (e + 1075).toNat := by
    rw [BitVec.toNat_ofNat]
    omega
  have hmantissa : (1#1 ++ BitVec.ofNat 52 m).toNat = m := by
    rw [toNat_implicit, BitVec.toNat_ofNat]
    omega
  -- Neither of the two exponents with a meaning of their own.
  have hnot : BitVec.ofNat 11 (e + 1075).toNat ≠ -1#11 := by
    intro heq
    have hall := hbits.symm.trans (congrArg BitVec.toNat heq)
    change (e + 1075).toNat = 2047 at hall
    omega
  have hsome : BitVec.ofNat 11 (e + 1075).toNat ≠ 0#11 := by
    intro heq
    have hnone := hbits.symm.trans (congrArg BitVec.toNat heq)
    change (e + 1075).toNat = 0 at hnone
    omega
  rw [pack_finite, if_neg (by omega), if_pos (log2_of_full hm hm'), unpack]
  simp only [unpackMantissa_packComponents, unpackExponent_packComponents,
    unpackSign_packComponents, hmantissa, hbits]
  rw [if_neg hnot, if_neg hsome]
  congr 1
  show ((e + 1075).toNat : Int) - ((1023 : Nat) + (52 : Nat)) = e
  omega

/-- A number holds a count of a power of two, unless it is out of all
proportion. -/
theorem unpack_dyadic (hc : c < 2 ^ 53) {k : Int} (hk : -1022 ≤ k)
    (hk' : k < 900) :
    (Float.Model.pack (dyadic c k)).unpack = dyadic c k := by
  rw [dyadic]
  split
  · rfl
  · next h =>
      have hlog := log2_le_of_lt hc
      obtain ⟨hm, hm'⟩ := full_mantissa h hc
      exact unpack_full _ hm hm' (by omega) (by omega)

/-! ## Counts and middles -/

theorem ofNat_dyadic (hc : c < 2 ^ 53) :
    ofNat Format.binary64 c = dyadic c 0 := by
  show normalize Format.binary64 (c : Int) 0 .positive = _
  rw [UnpackedFloat.normalize]
  by_cases h : c = 0
  · rw [h]
    rfl
  · have hpos : compare (c : Int) 0 = .gt := compare_gt_iff_gt.mpr (by omega)
    have hround := round_dyadic h hc (by decide : (-1022 : Int) ≤ 0 + (0 : Nat))
    rw [Nat.pow_zero, Nat.mul_one] at hround
    rw [hpos]
    exact hround

/-- Two counts in the parts of the smaller exponent. -/
theorem decreaseExponent_count (hc : c < 2 ^ 53) {e : Int}
    (he : e ≤ c.log2 - 52) :
    (decreaseExponent (c * 2 ^ (52 - c.log2)) (c.log2 - 52 + 0) e).1
      = c * 2 ^ (-e).toNat := by
  have hlog := log2_le_of_lt hc
  have hmoved : 52 - c.log2 + ((c.log2 : Int) - 52 + 0 - e).toNat
      = (-e).toNat := by omega
  show (c * 2 ^ (52 - c.log2)) <<< ((c.log2 : Int) - 52 + 0 - e).toNat = _
  rw [Nat.shiftLeft_eq, Nat.mul_assoc, ← Nat.pow_add, hmoved]

theorem add_dyadic {a b : Nat} (hsum : a + b < 2 ^ 53) :
    add Format.binary64 (dyadic a 0) (dyadic b 0) = dyadic (a + b) 0 := by
  by_cases ha : a = 0
  · subst ha
    rw [Nat.zero_add, dyadic_zero]
    by_cases hb : b = 0
    · subst hb
      rfl
    · rw [dyadic_of_ne_zero hb]
      rfl
  by_cases hb : b = 0
  · subst hb
    rw [Nat.add_zero, dyadic_zero, dyadic_of_ne_zero ha]
    rfl
  rw [dyadic_of_ne_zero ha, dyadic_of_ne_zero hb]
  show normalize Format.binary64
    (((decreaseExponent _ _ _).1 : Int) + ((decreaseExponent _ _ _).1 : Int)) _
      .positive = _
  have hloga := log2_le_of_lt (by omega : a < 2 ^ 53)
  have hlogb := log2_le_of_lt (by omega : b < 2 ^ 53)
  rw [decreaseExponent_count (by omega) (by omega),
    decreaseExponent_count (by omega) (by omega)]
  -- Whichever exponent is the smaller one, the counts are whole at zero.
  generalize hsmaller : min ((a.log2 : Int) - 52 + 0) (b.log2 - 52 + 0) = e
  have hexponent : e + ((-e).toNat : Int) = 0 := by omega
  have hpos : 0 < (a + b) * 2 ^ (-e).toNat :=
    Nat.mul_pos (by omega) (Nat.two_pow_pos _)
  have hcompare : compare (((a + b) * 2 ^ (-e).toNat : Nat) : Int) 0 = .gt :=
    compare_gt_iff_gt.mpr (by omega)
  rw [← Nat.cast_add, ← Nat.add_mul, UnpackedFloat.normalize, hcompare,
    ← hexponent]
  exact round_dyadic (by omega) hsum (by omega)

theorem divCore_two {m : Nat} {e : Int} (hm : 2 ^ 52 ≤ m)
    (hm' : m < 2 ^ 53) (he : -1072 ≤ e) :
    divCore Format.binary64 m e (2 ^ 52) (-51)
      = (m * 2 ^ 1, e - 2, .exact) := by
  have htarget : min (e - -51) (Format.binary64.targetExponent
      (totalExponent m e - totalExponent (2 ^ 52) (-51))) = e - 2 := by
    have h53 : ((Format.binary64.mantissaBits : Nat) : Int) = 53 := rfl
    have hmin : Format.binary64.minExponent = -1074 := rfl
    have htwo : totalExponent (2 ^ 52) (-51) = 2 := by decide
    rw [Format.targetExponent, htwo, totalExponent, log2_of_full hm hm', h53,
      hmin]
    omega
  have hamount : (e - -51 - (e - 2)).toNat = 53 := by omega
  have hquotient : m * 2 ^ 53 / 2 ^ 52 = m * 2 ^ 1 := by omega
  have hrest : m * 2 ^ 53 % 2 ^ 52 = 0 := by omega
  rw [divCore, htarget]
  simp only [hamount, Nat.shiftLeft_eq]
  rw [hquotient, hrest]
  rfl

theorem div_dyadic (hc : c < 2 ^ 53) :
    div Format.binary64 (dyadic c 0) (dyadic 2 0) = dyadic c (-1) := by
  by_cases h : c = 0
  · subst h
    rfl
  have hlog := log2_le_of_lt hc
  obtain ⟨hm, hm'⟩ := full_mantissa h hc
  have htwo : dyadic 2 0 = .finite .positive (2 ^ 52) (-51) (by decide) := rfl
  rw [dyadic_of_ne_zero h, dyadic_of_ne_zero h, htwo]
  simp only [div]
  rw [divCore_two hm hm' (by omega)]
  show roundWithAccuracy Format.binary64 .positive
    (c * 2 ^ (52 - c.log2) * 2 ^ 1) (c.log2 - 52 + 0 - 2) .exact = _
  rw [roundWithAccuracy_zeros _ hm hm' (by omega)]
  congr 1
  omega

end

theorem toModel_count (n : UInt32) :
    n.toFloat.toModel.unpack = dyadic n.toNat 0 := by
  have hlt : n.toNat < 2 ^ 32 := n.toNat_lt
  show (Float.Model.pack (ofNat Format.binary64 n.toNat)).unpack = _
  rw [ofNat_dyadic (by omega),
    unpack_dyadic (by omega) (by decide) (by decide)]

theorem toModel_two : (2.0 : Float).toModel.unpack = dyadic 2 0 :=
  rfl

theorem toModel_midpoint (a b : UInt32) :
    (Forecast.midpoint a b).toModel.unpack
      = dyadic (a.toNat + b.toNat) (-1) := by
  have ha : a.toNat < 2 ^ 32 := a.toNat_lt
  have hb : b.toNat < 2 ^ 32 := b.toNat_lt
  show (Float.Model.pack (div Format.binary64
    (Float.Model.pack (add Format.binary64 a.toFloat.toModel.unpack
      b.toFloat.toModel.unpack)).unpack
    (2.0 : Float).toModel.unpack)).unpack = _
  rw [toModel_count, toModel_count, toModel_two, add_dyadic (by omega),
    unpack_dyadic (by omega) (by decide) (by decide), div_dyadic (by omega),
    unpack_dyadic (by omega) (by decide) (by decide)]

theorem isNaN_dyadic (c : Nat) (k : Int) : (dyadic c k).isNaN = false := by
  rw [dyadic]
  split <;> rfl

theorem isNaN_count (n : UInt32) : n.toFloat.isNaN = false := by
  show n.toFloat.toModel.unpack.isNaN = false
  rw [toModel_count, isNaN_dyadic]

theorem isNaN_midpoint (a b : UInt32) :
    (Forecast.midpoint a b).isNaN = false := by
  show (Forecast.midpoint a b).toModel.unpack.isNaN = false
  rw [toModel_midpoint, isNaN_dyadic]

/-- A count is exact as a number. -/
theorem value_count (n : UInt32) :
    value n.toFloat = ((n.toNat : ℝ) : EReal) := by
  have hlt : n.toNat < 2 ^ 32 := n.toNat_lt
  rw [value, toModel_count, worth_dyadic (by omega), zpow_zero, mul_one]

/-- The middle between two counts is exact. -/
theorem value_midpoint (a b : UInt32) :
    value (Forecast.midpoint a b)
      = (((a.toNat + b.toNat) / 2 : ℝ) : EReal) := by
  have ha : a.toNat < 2 ^ 32 := a.toNat_lt
  have hb : b.toNat < 2 ^ 32 := b.toNat_lt
  rw [value, toModel_midpoint, worth_dyadic (by omega), zpow_neg_one,
    Nat.cast_add, div_eq_mul_inv]

theorem count_le_iff {a b : UInt32} : a.toFloat ≤ b.toFloat ↔ a ≤ b := by
  rw [le_iff, value_count, value_count, EReal.coe_le_coe_iff, Nat.cast_le,
    UInt32.le_iff_toNat_le]
  exact and_iff_right ⟨isNaN_count a, isNaN_count b⟩

section

variable {a b c : UInt32}

theorem count_le_midpoint (h : a ≤ b) (h' : a ≤ c) :
    a.toFloat ≤ Forecast.midpoint b c := by
  have hb : (a.toNat : ℝ) ≤ b.toNat := Nat.cast_le.mpr h
  have hc : (a.toNat : ℝ) ≤ c.toNat := Nat.cast_le.mpr h'
  rw [le_iff, value_count, value_midpoint, EReal.coe_le_coe_iff]
  exact ⟨⟨isNaN_count a, isNaN_midpoint b c⟩, by linarith⟩

theorem midpoint_le_count (h : a ≤ c) (h' : b ≤ c) :
    Forecast.midpoint a b ≤ c.toFloat := by
  have ha : (a.toNat : ℝ) ≤ c.toNat := Nat.cast_le.mpr h
  have hb : (b.toNat : ℝ) ≤ c.toNat := Nat.cast_le.mpr h'
  rw [le_iff, value_count, value_midpoint, EReal.coe_le_coe_iff]
  exact ⟨⟨isNaN_midpoint a b, isNaN_count c⟩, by linarith⟩

end

/-! ## Shares -/

/-- A number that is not below zero, and no zero with a minus. -/
def Unsigned : UnpackedFloat → Prop
  | .notANumber => False
  | .infinity s | .zero s | .finite s _ _ _ => s = .positive

theorem unsigned_packComponents {e : BitVec 11} {m : BitVec 52}
    (h : e ≠ -1#11 ∨ m = 0#52) :
    Unsigned (unpack Format.binary64
      (packComponents Format.binary64 .positive e m)) := by
  rw [unpack]
  simp only [unpackMantissa_packComponents, unpackExponent_packComponents,
    unpackSign_packComponents]
  split
  · next he => rw [if_pos (h.resolve_left fun hne => hne he)]; rfl
  split
  · split <;> rfl
  · rfl

theorem unsigned_pack {a : UnpackedFloat} (h : Unsigned a) :
    Unsigned (Float.Model.pack a).unpack := by
  show Unsigned (unpack Format.binary64 (pack Format.binary64 a))
  match a with
  | .infinity s | .zero s =>
      obtain rfl : s = .positive := h
      rfl
  | .finite s m e hm =>
      obtain rfl : s = .positive := h
      rw [pack_finite]
      split
      · rfl
      · next hless =>
          split
          · refine unsigned_packComponents (.inl fun heq => ?_)
            have hall := congrArg BitVec.toNat heq
            rw [BitVec.toNat_ofNat] at hall
            change _ = 2047 at hall
            omega
          · exact unsigned_packComponents (.inl (by decide))

theorem unsigned_roundWithAccuracy (m : Nat) (e : Int) (acc : Accuracy) :
    Unsigned (roundWithAccuracy Format.binary64 .positive m e acc) := by
  rw [roundWithAccuracy]
  dsimp only
  split <;> rfl

theorem value_zero : value 0.0 = 0 :=
  rfl

theorem value_one : value 1.0 = 1 := by
  have hcount : (1.0 : Float) = (1 : UInt32).toFloat := by decide +kernel
  rw [hcount, value_count, UInt32.toNat_one, Nat.cast_one, EReal.coe_one]

section

variable {x y : Float}

theorem isNaN_of_unsigned (h : Unsigned x.toModel.unpack) :
    x.isNaN = false := by
  show x.toModel.unpack.isNaN = false
  revert h
  cases x.toModel.unpack with
  | notANumber => exact fun h => h.elim
  | infinity | zero | finite => exact fun _ => rfl

theorem zero_le_of_unsigned (h : Unsigned x.toModel.unpack) : 0.0 ≤ x := by
  refine le_iff.mpr ⟨⟨rfl, isNaN_of_unsigned h⟩, ?_⟩
  rw [value_zero, value]
  revert h
  cases x.toModel.unpack with
  | notANumber => exact fun h => h.elim
  | zero => exact fun _ => le_rfl
  | infinity s =>
      rintro rfl
      exact le_top
  | finite s m e hm =>
      rintro rfl
      exact EReal.coe_nonneg.mpr (magnitude_pos hm e).le

/-- What is greater than zero has no sign, and is no zero. -/
theorem parts_of_pos (h : 0.0 < x) : x.toModel.unpack = .infinity .positive ∨
    ∃ m e hm, x.toModel.unpack = .finite .positive m e hm := by
  have hpos : value 0.0 < worth x.toModel.unpack := (lt_iff.mp h).2
  rw [value_zero] at hpos
  match hparts : x.toModel.unpack with
  | .notANumber | .zero _ =>
      rw [hparts] at hpos
      exact absurd hpos (lt_irrefl _)
  | .infinity .positive => exact .inl rfl
  | .infinity .negative =>
      rw [hparts] at hpos
      exact absurd hpos not_lt_bot
  | .finite .positive m e hm => exact .inr ⟨m, e, hm, rfl⟩
  | .finite .negative m e hm =>
      rw [hparts] at hpos
      have hless := neg_neg_of_pos (magnitude_pos hm e)
      exact absurd (EReal.coe_pos.mp hpos) hless.not_gt

theorem unsigned_of_pos (h : 0.0 < x) : Unsigned x.toModel.unpack := by
  rcases parts_of_pos h with hparts | ⟨m, e, hm, hparts⟩
  · rw [hparts]
    rfl
  · rw [hparts]
    rfl

theorem eq_zero_of_unsigned {a : UnpackedFloat} (ha : Unsigned a)
    (h : worth a = 0) : a = .zero .positive := by
  match a with
  | .infinity s =>
      obtain rfl : s = .positive := ha
      exact absurd h EReal.top_ne_zero
  | .zero s =>
      obtain rfl : s = .positive := ha
      rfl
  | .finite s m e hm =>
      obtain rfl : s = .positive := ha
      exact absurd (EReal.coe_eq_zero.mp h) (magnitude_pos hm e).ne'

/-- Without signs, numbers of equal value are the same. -/
theorem eq_of_unsigned (hx : Unsigned x.toModel.unpack)
    (hy : Unsigned y.toModel.unpack) (h : value x = value y) : x = y := by
  by_cases hzero : value x = 0
  · have hleft := eq_zero_of_unsigned hx hzero
    have hright := eq_zero_of_unsigned hy (h.symm.trans hzero)
    exact toModel_injective (hleft.trans hright.symm)
  · exact eq_of_value (isNaN_of_unsigned hx) (isNaN_of_unsigned hy) h hzero

/-- A share of a count is a number, and has no sign. -/
theorem unsigned_share (n : UInt32) (hx : 0.0 < x) :
    Unsigned (n.toFloat / x).toModel.unpack := by
  show Unsigned (Float.Model.pack (div Format.binary64
    n.toFloat.toModel.unpack x.toModel.unpack)).unpack
  refine unsigned_pack ?_
  rw [toModel_count, dyadic]
  rcases parts_of_pos hx with hparts | ⟨m, e, hm, hparts⟩
  · rw [hparts]
    split <;> rfl
  · rw [hparts]
    split
    · rfl
    · exact unsigned_roundWithAccuracy _ _ _

end

end Ridership.Binary64

import Mathlib

/-!
# The order of numbers is that of their values

A binary64 number is sixty-four bits, and what is asked of two of them is asked
of the parts that the bits hold: exponents first, then mantissas. That this is
the order of the values rests on one thing. The parts read from bits are never
spread over more than they need: a mantissa has all its fifty-three digits, or
the exponent is the least there is (`Proper`). So of two numbers with different
exponents the one with the greater exponent is the greater.

From there on nothing has to look at bits. Numbers compare as their values do,
and a value that is no number compares with nothing (`le_iff`), so the laws of
an order hold as far as numbers are compared at all. Only a zero has two
numbers; all other values have one (`eq_of_value`).
-/

namespace Ridership.Binary64

open Float.Model (Format UnpackedFloat)
open Float.Model.UnpackedFloat (Sign)

/-! ## Values -/

/-- The value of a mantissa with its exponent. -/
noncomputable def magnitude (m : Nat) (e : Int) : ℝ :=
  m * 2 ^ e

/-- What parts are worth. What is no number counts as nothing. -/
noncomputable def worth : UnpackedFloat → EReal
  | .notANumber => 0
  | .infinity .positive => ⊤
  | .infinity .negative => ⊥
  | .zero _ => 0
  | .finite .positive m e _ => magnitude m e
  | .finite .negative m e _ => (-magnitude m e : ℝ)

/-- What a number is worth. -/
noncomputable def value (x : Float) : EReal :=
  worth x.toModel.unpack

/-- The mantissa of a finite number has all its digits, or the exponent
is the least. -/
def Proper : UnpackedFloat → Prop
  | .finite _ m e _ => m < 2 ^ 53 ∧ -1074 ≤ e ∧ (2 ^ 52 ≤ m ∨ e = -1074)
  | _ => True

theorem toNat_implicit (v : BitVec 52) :
    (1#1 ++ v).toNat = 2 ^ 52 + v.toNat := by
  rw [BitVec.toNat_append, ← Nat.shiftLeft_add_eq_or_of_lt v.isLt]
  rfl

theorem proper_unpack (bits : BitVec Format.binary64.numBits) :
    Proper (UnpackedFloat.unpack Format.binary64 bits) := by
  have hmantissa := (UnpackedFloat.unpackMantissa bits).isLt
  have hbias : ((Format.binary64.exponentBias : Nat) : Int) = 1023 := rfl
  have hdigits : ((Format.binary64.mantissaBitsWithoutImplicit : Nat) : Int)
      = 52 := rfl
  rw [UnpackedFloat.unpack]
  split
  · split <;> trivial
  split
  · next hzero =>
      split
      · trivial
      · have hexponent : (UnpackedFloat.unpackExponent bits).toNat = 0 := by
          rw [hzero]
          rfl
        refine ⟨Nat.lt_trans hmantissa (by decide), ?_, .inr ?_⟩
        · rw [hexponent, hbias, hdigits]
          decide
        · rw [hexponent, hbias, hdigits]
          rfl
  · next hzero =>
      have hexponent : (UnpackedFloat.unpackExponent bits).toNat ≠ 0 :=
        fun h => hzero (BitVec.eq_of_toNat_eq h)
      have hm := toNat_implicit (UnpackedFloat.unpackMantissa bits)
      refine ⟨?_, ?_, .inl ?_⟩
      · omega
      · omega
      · omega

/-! ## Comparing parts -/

theorem magnitude_pos {m : Nat} (hm : 0 < m) (e : Int) : 0 < magnitude m e :=
  mul_pos (Nat.cast_pos.mpr hm) (zpow_pos (by norm_num) e)

section

variable {m₁ m₂ : Nat} {e₁ e₂ : Int}

theorem magnitude_lt_of_mantissa_lt (hm : m₁ < m₂) (e : Int) :
    magnitude m₁ e < magnitude m₂ e :=
  mul_lt_mul_of_pos_right (Nat.cast_lt.mpr hm) (zpow_pos (by norm_num) e)

theorem magnitude_lt_of_exponent_lt (hm : m₁ < 2 ^ 53) (hm' : 2 ^ 52 ≤ m₂)
    (he : e₁ < e₂) : magnitude m₁ e₁ < magnitude m₂ e₂ := by
  have hpow : (2 : ℝ) ^ (e₁ + 1) ≤ 2 ^ e₂ :=
    zpow_le_zpow_right₀ (by norm_num) he
  have hdouble : (2 : ℝ) ^ (e₁ + 1) = 2 * 2 ^ e₁ := by
    rw [zpow_add_one₀ (by norm_num), mul_comm]
  have hless : (m₁ : ℝ) < 2 ^ 52 * 2 := by exact_mod_cast hm
  have hfull : (2 : ℝ) ^ 52 ≤ m₂ := by exact_mod_cast hm'
  calc magnitude m₁ e₁
      < 2 ^ 52 * 2 * 2 ^ e₁ :=
        mul_lt_mul_of_pos_right hless (zpow_pos (by norm_num) e₁)
    _ = 2 ^ 52 * 2 ^ (e₁ + 1) := by rw [hdouble, mul_assoc]
    _ ≤ m₂ * 2 ^ e₂ :=
        mul_le_mul hfull hpow (zpow_nonneg (by norm_num) _) (Nat.cast_nonneg _)

/-- Exponents first, then mantissas: that is the order of the values. -/
theorem compares_magnitude (hm₁ : 0 < m₁) (hm₂ : 0 < m₂)
    {s₁ s₂ : Sign} (h₁ : Proper (.finite s₁ m₁ e₁ hm₁))
    (h₂ : Proper (.finite s₂ m₂ e₂ hm₂)) :
    ((compare e₁ e₂).then (compare m₁ m₂)).Compares
      (magnitude m₁ e₁) (magnitude m₂ e₂) := by
  obtain ⟨hless₁, hleast₁, hfull₁⟩ := h₁
  obtain ⟨hless₂, hleast₂, hfull₂⟩ := h₂
  rcases lt_trichotomy e₁ e₂ with he | rfl | he
  · rw [compare_lt_iff_lt.mpr he]
    exact magnitude_lt_of_exponent_lt hless₁ (by omega) he
  · rw [compare_eq_iff_eq.mpr rfl]
    rcases lt_trichotomy m₁ m₂ with hm | rfl | hm
    · rw [compare_lt_iff_lt.mpr hm]
      exact magnitude_lt_of_mantissa_lt hm e₁
    · rw [compare_eq_iff_eq.mpr rfl]
      rfl
    · rw [compare_gt_iff_gt.mpr hm]
      exact magnitude_lt_of_mantissa_lt hm e₁
  · rw [compare_gt_iff_gt.mpr he]
    exact magnitude_lt_of_exponent_lt hless₂ (by omega) he

end

theorem compares_coe {o : Ordering} {p q : ℝ} (h : o.Compares p q) :
    o.Compares (p : EReal) q := by
  cases o with
  | lt => exact EReal.coe_lt_coe_iff.mpr h
  | eq => exact congrArg _ h
  | gt => exact EReal.coe_lt_coe_iff.mpr h

theorem compares_neg {o : Ordering} {p q : ℝ} (h : o.Compares p q) :
    o.swap.Compares (-p) (-q) := by
  cases o with
  | lt => exact neg_lt_neg h
  | eq => exact congrArg Neg.neg h
  | gt => exact neg_lt_neg h

theorem compares_finite {s t : Sign} {m n : Nat} {e f : Int} {hm : 0 < m}
    {hn : 0 < n} (ha : Proper (.finite s m e hm))
    (hb : Proper (.finite t n f hn)) :
    ∃ o, (UnpackedFloat.finite s m e hm).compare (.finite t n f hn) = some o ∧
      o.Compares (worth (.finite s m e hm)) (worth (.finite t n f hn)) := by
  have hpos := magnitude_pos hm e
  have hpos' := magnitude_pos hn f
  have hmagnitudes := compares_magnitude hm hn ha hb
  match s, t with
  | .positive, .positive => exact ⟨_, rfl, compares_coe hmagnitudes⟩
  | .negative, .negative =>
      exact ⟨_, rfl, compares_coe (compares_neg hmagnitudes)⟩
  | .negative, .positive =>
      have hless : Ordering.lt.Compares (-magnitude m e) (magnitude n f) :=
        (neg_neg_of_pos hpos).trans hpos'
      exact ⟨_, rfl, compares_coe hless⟩
  | .positive, .negative =>
      have hless : Ordering.gt.Compares (magnitude m e) (-magnitude n f) :=
        (neg_neg_of_pos hpos').trans hpos
      exact ⟨_, rfl, compares_coe hless⟩

/-- Parts that are numbers compare as their values do. -/
theorem compares_worth {a b : UnpackedFloat} (ha : Proper a) (hb : Proper b)
    (hna : a.isNaN = false) (hnb : b.isNaN = false) :
    ∃ o, a.compare b = some o ∧ o.Compares (worth a) (worth b) := by
  match a, b with
  | .notANumber, _ => cases hna
  | _, .notANumber => cases hnb
  | .finite .., .finite .. => exact compares_finite ha hb
  | .zero _, .zero _
  | .infinity .positive, .infinity .positive
  | .infinity .negative, .infinity .negative => exact ⟨.eq, rfl, rfl⟩
  | .infinity .positive, .infinity .negative => exact ⟨.gt, rfl, bot_lt_top⟩
  | .infinity .negative, .infinity .positive => exact ⟨.lt, rfl, bot_lt_top⟩
  | .zero _, .finite .positive m e h
  | .zero _, .finite .negative m e h
  | .finite .positive m e h, .zero _
  | .finite .negative m e h, .zero _ =>
      have hpos := magnitude_pos h e
      exact ⟨_, rfl, by simpa [worth] using hpos⟩
  | .infinity .positive, .zero _ => exact ⟨.gt, rfl, EReal.zero_lt_top⟩
  | .infinity .negative, .zero _ => exact ⟨.lt, rfl, EReal.bot_lt_zero⟩
  | .zero _, .infinity .positive => exact ⟨.lt, rfl, EReal.zero_lt_top⟩
  | .zero _, .infinity .negative => exact ⟨.gt, rfl, EReal.bot_lt_zero⟩
  | .infinity .positive, .finite .positive ..
  | .infinity .positive, .finite .negative .. =>
      exact ⟨.gt, rfl, EReal.coe_lt_top _⟩
  | .infinity .negative, .finite .positive ..
  | .infinity .negative, .finite .negative .. =>
      exact ⟨.lt, rfl, EReal.bot_lt_coe _⟩
  | .finite .positive .., .infinity .positive
  | .finite .negative .., .infinity .positive =>
      exact ⟨.lt, rfl, EReal.coe_lt_top _⟩
  | .finite .positive .., .infinity .negative
  | .finite .negative .., .infinity .negative =>
      exact ⟨.gt, rfl, EReal.bot_lt_coe _⟩

/-! ## Comparing numbers -/

section

variable {x y z : Float}

/-- What is compared at all is compared by value. -/
theorem compares_value (hx : x.isNaN = false) (hy : y.isNaN = false) :
    ∃ o, x.toModel.unpack.compare y.toModel.unpack = some o ∧
      o.Compares (value x) (value y) :=
  compares_worth (proper_unpack _) (proper_unpack _) hx hy

theorem compare_of_isNaN
    (h : ¬ (x.isNaN = false ∧ y.isNaN = false)) :
    x.toModel.unpack.compare y.toModel.unpack = none := by
  have hparts : ¬ (x.toModel.unpack.isNaN = false ∧
      y.toModel.unpack.isNaN = false) := h
  revert hparts
  cases x.toModel.unpack with
  | notANumber => exact fun _ => rfl
  | infinity s | zero s | finite s =>
      cases y.toModel.unpack with
      | notANumber =>
          intro
          cases s <;> rfl
      | infinity | zero | finite => exact fun h => absurd ⟨rfl, rfl⟩ h

theorem le_iff : x ≤ y ↔
    (x.isNaN = false ∧ y.isNaN = false) ∧ value x ≤ value y := by
  have hle : x ≤ y ↔ (x.toModel.unpack.compare y.toModel.unpack).any
      (·.isLE) = true := decide_eq_true_iff
  rw [hle]
  by_cases h : x.isNaN = false ∧ y.isNaN = false
  · obtain ⟨o, ho, hcompares⟩ := compares_value h.1 h.2
    rw [ho, and_iff_right h]
    cases o with
    | lt => exact iff_of_true rfl hcompares.le
    | eq => exact iff_of_true rfl hcompares.le
    | gt => exact iff_of_false Bool.false_ne_true (not_le_of_gt hcompares)
  · rw [compare_of_isNaN h]
    exact iff_of_false Bool.false_ne_true fun hboth => h hboth.1

theorem lt_iff : x < y ↔
    (x.isNaN = false ∧ y.isNaN = false) ∧ value x < value y := by
  have hlt : x < y ↔ (x.toModel.unpack.compare y.toModel.unpack
      == some Ordering.lt) = true := decide_eq_true_iff
  rw [hlt]
  by_cases h : x.isNaN = false ∧ y.isNaN = false
  · obtain ⟨o, ho, hcompares⟩ := compares_value h.1 h.2
    rw [ho, and_iff_right h]
    cases o with
    | lt => exact iff_of_true rfl hcompares
    | eq => exact iff_of_false Bool.false_ne_true hcompares.not_lt
    | gt => exact iff_of_false Bool.false_ne_true (not_lt_of_gt hcompares)
  · rw [compare_of_isNaN h]
    exact iff_of_false Bool.false_ne_true fun hboth => h hboth.1

theorem beq_iff : (x == y) = true ↔
    (x.isNaN = false ∧ y.isNaN = false) ∧ value x = value y := by
  have hbeq : (x == y) = true ↔ (x.toModel.unpack.compare y.toModel.unpack
      == some Ordering.eq) = true := Iff.rfl
  rw [hbeq]
  by_cases h : x.isNaN = false ∧ y.isNaN = false
  · obtain ⟨o, ho, hcompares⟩ := compares_value h.1 h.2
    rw [ho, and_iff_right h]
    cases o with
    | lt => exact iff_of_false Bool.false_ne_true (ne_of_lt hcompares)
    | eq => exact iff_of_true rfl hcompares
    | gt => exact iff_of_false Bool.false_ne_true (ne_of_gt hcompares)
  · rw [compare_of_isNaN h]
    exact iff_of_false Bool.false_ne_true fun hboth => h hboth.1

theorem isNaN_of_le (h : x ≤ y) : x.isNaN = false ∧ y.isNaN = false :=
  (le_iff.mp h).1

theorem le_refl (hx : x.isNaN = false) : x ≤ x :=
  le_iff.mpr ⟨⟨hx, hx⟩, le_rfl⟩

theorem le_trans (h : x ≤ y) (h' : y ≤ z) : x ≤ z :=
  le_iff.mpr ⟨⟨(isNaN_of_le h).1, (isNaN_of_le h').2⟩,
    (le_iff.mp h).2.trans (le_iff.mp h').2⟩

theorem not_lt_of_le (h : x ≤ y) : ¬ y < x :=
  fun h' => ((le_iff.mp h).2.trans_lt (lt_iff.mp h').2).false

theorem not_lt_self : ¬ x < x :=
  fun h => (lt_iff.mp h).2.false

/-- At least a bound is what meets it or is beyond it. -/
theorem beq_or_lt_iff : (x == y) = true ∨ y < x ↔ y ≤ x := by
  rw [beq_iff, lt_iff, le_iff, le_iff_eq_or_lt]
  tauto

/-- What is met leaves no room for a greater bound that is reached as well. -/
theorem beq_of_le (h : (x == y) = true) (hyz : y ≤ z) (hzx : z ≤ x) :
    (x == z) = true := by
  have hxy := (beq_iff.mp h).2
  exact beq_iff.mpr ⟨⟨(isNaN_of_le hzx).2, (isNaN_of_le hzx).1⟩,
    (hxy.trans_le (le_iff.mp hyz).2).antisymm (le_iff.mp hzx).2⟩

theorem le_of_not_lt (hx : x.isNaN = false) (hy : y.isNaN = false)
    (h : ¬ x < y) : y ≤ x :=
  le_iff.mpr ⟨⟨hy, hx⟩, not_lt.mp fun hless => h (lt_iff.mpr ⟨⟨hx, hy⟩, hless⟩)⟩

theorem lt_of_not_le (hx : x.isNaN = false) (hy : y.isNaN = false)
    (h : ¬ y ≤ x) : x < y :=
  lt_iff.mpr ⟨⟨hx, hy⟩, not_le.mp fun hle => h (le_iff.mpr ⟨⟨hy, hx⟩, hle⟩)⟩

theorem not_le_of_lt (h : x < y) : ¬ y ≤ x :=
  fun h' => not_lt_of_le h' h

end

/-! ## One number for a value -/

theorem packComponents_fields {bits : BitVec Format.binary64.numBits}
    {e : BitVec Format.binary64.exponentBits}
    {m : BitVec Format.binary64.mantissaBitsWithoutImplicit}
    (he : UnpackedFloat.unpackExponent bits = e)
    (hm : UnpackedFloat.unpackMantissa bits = m) :
    UnpackedFloat.packComponents Format.binary64
      (Sign.ofBitVec (UnpackedFloat.unpackSign bits)) e m = bits := by
  have hsign (v : BitVec 1) : (Sign.ofBitVec v).toBitVec = v := by
    revert v
    decide
  subst he hm
  simp only [UnpackedFloat.packComponents, hsign, UnpackedFloat.unpackSign,
    UnpackedFloat.unpackExponent, UnpackedFloat.unpackMantissa,
    BitVec.extractLsb]
  ext i hi
  grind

theorem log2_of_full {m : Nat} (hm : 2 ^ 52 ≤ m) (hm' : m < 2 ^ 53) :
    m.log2 = 52 :=
  (Nat.log2_eq_iff (by omega)).mpr ⟨hm, hm'⟩

theorem pack_finite (s : Sign) (m : Nat) (e : Int) (h : 0 < m) :
    UnpackedFloat.pack Format.binary64 (.finite s m e h)
      = if 2047 ≤ (e + 1075).toNat then
          UnpackedFloat.packedInfinity Format.binary64 s
        else if m.log2 = 52 then
          UnpackedFloat.packComponents Format.binary64 s
            (BitVec.ofNat 11 (e + 1075).toNat) (BitVec.ofNat 52 m)
        else
          UnpackedFloat.packComponents Format.binary64 s 0#11
            (BitVec.ofNat 52 m) := by
  have hbiased : e + (1023 : Nat) + (52 : Nat) = e + 1075 := by omega
  have hpack : UnpackedFloat.pack Format.binary64 (.finite s m e h)
      = if 2048 ≤ (e + (1023 : Nat) + (52 : Nat)).toNat + 1 then
          UnpackedFloat.packedInfinity Format.binary64 s
        else if m.log2 + 1 = 53 then
          UnpackedFloat.packComponents Format.binary64 s
            (BitVec.ofNat 11 (e + (1023 : Nat) + (52 : Nat)).toNat)
            (BitVec.ofNat 52 m)
        else
          UnpackedFloat.packComponents Format.binary64 s 0#11
            (BitVec.ofNat 52 m) := rfl
  rw [hpack, hbiased]
  simp only [Nat.reduceLeDiff, Nat.reduceEqDiff]

/-- Packing the parts of bits gives the bits back. -/
theorem pack_unpack {bits : BitVec Format.binary64.numBits}
    (hvalid : Format.binary64.Valid bits) :
    UnpackedFloat.pack Format.binary64
      (UnpackedFloat.unpack Format.binary64 bits) = bits := by
  have hmantissa : (UnpackedFloat.unpackMantissa bits).toNat < 2 ^ 52 :=
    (UnpackedFloat.unpackMantissa bits).isLt
  have hexponent : (UnpackedFloat.unpackExponent bits).toNat < 2 ^ 11 :=
    (UnpackedFloat.unpackExponent bits).isLt
  have hbias : ((Format.binary64.exponentBias : Nat) : Int) = 1023 := rfl
  have hdigits : ((Format.binary64.mantissaBitsWithoutImplicit : Nat) : Int)
      = 52 := rfl
  rw [UnpackedFloat.unpack]
  split
  · next he =>
      split
      · next hm => exact packComponents_fields he hm
      · next hm => exact (hvalid.eq_packedNaN he hm).symm
  split
  · next he =>
      split
      · next hm => exact packComponents_fields he hm
      · next hm =>
          have hleast : ((UnpackedFloat.unpackExponent bits).toNat : Int)
              - (Format.binary64.exponentBias
                + Format.binary64.mantissaBitsWithoutImplicit) + 1 = -1074 := by
            rw [he, hbias, hdigits]
            rfl
          have hsome : (UnpackedFloat.unpackMantissa bits).toNat ≠ 0 :=
            fun h => hm (BitVec.eq_of_toNat_eq h)
          have hlog := (Nat.log2_lt hsome).mpr hmantissa
          rw [pack_finite, if_neg (by omega), if_neg (by omega),
            BitVec.ofNat_toNat, BitVec.setWidth_eq]
          exact packComponents_fields he rfl
  · next hfinite he =>
      have hm := toNat_implicit (UnpackedFloat.unpackMantissa bits)
      have hnot : (UnpackedFloat.unpackExponent bits).toNat ≠ 2047 :=
        fun h => hfinite (BitVec.eq_of_toNat_eq h)
      have hbiased : (((UnpackedFloat.unpackExponent bits).toNat : Int)
          - (Format.binary64.exponentBias
            + Format.binary64.mantissaBitsWithoutImplicit) + 1075).toNat
          = (UnpackedFloat.unpackExponent bits).toNat := by omega
      rw [pack_finite, if_neg (by omega),
        if_pos (log2_of_full (by omega) (by omega)), hbiased]
      refine packComponents_fields ?_ (BitVec.eq_of_toNat_eq ?_)
      · rw [BitVec.ofNat_toNat]
        exact (BitVec.setWidth_eq _).symm
      · rw [BitVec.toNat_ofNat, hm]
        show _ = (2 ^ 52 + (UnpackedFloat.unpackMantissa bits).toNat) % 2 ^ 52
        rw [Nat.add_mod_left, Nat.mod_eq_of_lt hmantissa]

theorem toModel_injective {x y : Float}
    (h : x.toModel.unpack = y.toModel.unpack) : x = y := by
  have hpack (x : Float) : .ofModel (.pack x.toModel.unpack) = x := by
    obtain ⟨⟨bits, hvalid⟩⟩ := x
    simp only [Float.Model.pack, Float.Model.unpack, pack_unpack hvalid]
  rw [← hpack x, h, hpack y]

theorem then_eq_eq {o p : Ordering} (h : o.then p = .eq) :
    o = .eq ∧ p = .eq := by
  cases o <;> simp_all [Ordering.then]

theorem eq_of_compare {a b : UnpackedFloat} (h : a.compare b = some .eq)
    (hzero : worth a ≠ 0) : a = b := by
  match a, b with
  | .zero _, _ => exact absurd rfl hzero
  | .infinity .positive, .infinity .positive
  | .infinity .negative, .infinity .negative => rfl
  | .finite .positive m e _, .finite .positive n f _ =>
      have heq : (compare e f).then (compare m n) = .eq := Option.some.inj h
      obtain ⟨hexponent, hmantissa⟩ := then_eq_eq heq
      obtain rfl := compare_eq_iff_eq.mp hexponent
      obtain rfl := compare_eq_iff_eq.mp hmantissa
      rfl
  | .finite .negative m e _, .finite .negative n f _ =>
      have heq : ((compare e f).then (compare m n)).swap = .eq :=
        Option.some.inj h
      obtain ⟨hexponent, hmantissa⟩ := then_eq_eq (Ordering.swap_eq_eq.mp heq)
      obtain rfl := compare_eq_iff_eq.mp hexponent
      obtain rfl := compare_eq_iff_eq.mp hmantissa
      rfl

/-- Numbers of equal value are the same, if they are not both zero. -/
theorem eq_of_value {x y : Float} (hx : x.isNaN = false)
    (hy : y.isNaN = false) (h : value x = value y) (hzero : value x ≠ 0) :
    x = y := by
  obtain ⟨o, ho, hcompares⟩ := compares_value hx hy
  obtain rfl : o = .eq := hcompares.eq_eq.mpr h
  exact toModel_injective (eq_of_compare ho hzero)

end Ridership.Binary64

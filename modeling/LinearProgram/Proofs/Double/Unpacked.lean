import Mathlib

/-! # Doubles as numbers

A finite double has a rational value. Its unpacked form uses all bits that it has, unless the
exponent is the least, so that exponents, then bits, decide how two doubles compare. What is rounded
to that form and fits is unpacked as it was packed.
-/

namespace LinearProgram

namespace Double

open Float.Model Float.Model.UnpackedFloat

/-- The value of an unpacked number, zero if it is not finite. -/
def valueOf : UnpackedFloat → ℚ
  | .finite sign m e _ => (sign.apply m : ℤ) * 2 ^ e
  | _ => 0

/-- A number as rounding leaves it: with all its bits in use, unless the exponent is the least. -/
def IsRounded : UnpackedFloat → Prop
  | .finite _ m e _ => m < 2 ^ 53 ∧ -1074 ≤ e ∧ (2 ^ 52 ≤ m ∨ e = -1074)
  | .zero _ => True
  | _ => False

/-- A rounded number whose exponent is not too large for a double. -/
def Fits : UnpackedFloat → Prop
  | .finite _ _ e _ => e ≤ 971
  | _ => True

variable {u w : UnpackedFloat} {s : Sign} {m n k : ℕ} {e f : ℤ}

theorem two_zpow_pos (e : ℤ) : (0 : ℚ) < 2 ^ e := zpow_pos two_pos e

/-- Of rounded magnitudes the one with the larger exponent is larger. -/
theorem magnitude_lt (hm : m < 2 ^ 53) (he : -1074 ≤ e) (hn : 2 ^ 52 ≤ n ∨ f = -1074)
    (hlt : e < f) : (m : ℚ) * 2 ^ e < n * 2 ^ f := by
  have hn' : 2 ^ 52 ≤ n := hn.resolve_right (by omega)
  have hbound : (m : ℚ) * 2 ^ e < 2 ^ (53 : ℤ) * 2 ^ e :=
    mul_lt_mul_of_pos_right (by exact_mod_cast hm) (two_zpow_pos e)
  have hexp : (2 : ℚ) ^ (53 : ℤ) * 2 ^ e ≤ 2 ^ (52 : ℤ) * 2 ^ f := by
    rw [← zpow_add₀ two_ne_zero, ← zpow_add₀ two_ne_zero]
    exact zpow_le_zpow_right₀ one_le_two (by omega)
  have hlast : (2 : ℚ) ^ (52 : ℤ) * 2 ^ f ≤ n * 2 ^ f :=
    mul_le_mul_of_nonneg_right (by exact_mod_cast hn') (two_zpow_pos f).le
  exact hbound.trans_le (hexp.trans hlast)

/-- Rounded magnitudes are compared by exponent, then by bits. -/
theorem compare_magnitudes (hm : m < 2 ^ 53) (he : -1074 ≤ e) (hme : 2 ^ 52 ≤ m ∨ e = -1074)
    (hn : n < 2 ^ 53) (hf : -1074 ≤ f) (hnf : 2 ^ 52 ≤ n ∨ f = -1074) :
    (compare e f).then (compare m n) = compare ((m : ℚ) * 2 ^ e) (n * 2 ^ f) := by
  rcases lt_trichotomy e f with hlt | rfl | hgt
  · rw [compare_lt_iff_lt.mpr hlt, compare_lt_iff_lt.mpr (magnitude_lt hm he hnf hlt)]
    rfl
  · rw [compare_eq_iff_eq.mpr rfl, Ordering.then]
    rcases lt_trichotomy m n with hlt | rfl | hgt
    · rw [compare_lt_iff_lt.mpr hlt, eq_comm, compare_lt_iff_lt]
      exact mul_lt_mul_of_pos_right (by exact_mod_cast hlt) (two_zpow_pos e)
    · rw [compare_eq_iff_eq.mpr rfl, compare_eq_iff_eq.mpr rfl]
    · rw [compare_gt_iff_gt.mpr hgt, eq_comm, compare_gt_iff_gt]
      exact mul_lt_mul_of_pos_right (by exact_mod_cast hgt) (two_zpow_pos e)
  · rw [compare_gt_iff_gt.mpr hgt, compare_gt_iff_gt.mpr (magnitude_lt hn hf hme hgt)]
    rfl

theorem valueOf_zero (s : Sign) : valueOf (.zero s) = 0 := rfl

theorem valueOf_positive (hm : 0 < m) : valueOf (.finite .positive m e hm) = m * 2 ^ e := rfl

theorem valueOf_negative (hm : 0 < m) : valueOf (.finite .negative m e hm) = -(m * 2 ^ e) := by
  simp [valueOf, Sign.apply]

theorem magnitude_pos (hm : 0 < m) (e : ℤ) : (0 : ℚ) < m * 2 ^ e :=
  mul_pos (by exact_mod_cast hm) (two_zpow_pos e)

theorem abs_valueOf_finite (s : Sign) (hm : 0 < m) (e : ℤ) :
    |valueOf (.finite s m e hm)| = m * 2 ^ e := by
  cases s with
  | positive => rw [valueOf_positive, abs_of_pos (magnitude_pos hm e)]
  | negative => rw [valueOf_negative, abs_neg, abs_of_pos (magnitude_pos hm e)]

theorem compare_neg_neg (x y : ℚ) : compare (-x) (-y) = (compare x y).swap := by
  rw [Std.OrientedOrd.eq_swap (a := x), Ordering.swap_swap]
  rcases lt_trichotomy y x with hlt | rfl | hgt
  · rw [compare_lt_iff_lt.mpr hlt, compare_lt_iff_lt.mpr (neg_lt_neg hlt)]
  · rw [compare_eq_iff_eq.mpr rfl, compare_eq_iff_eq.mpr rfl]
  · rw [compare_gt_iff_gt.mpr hgt, compare_gt_iff_gt.mpr (neg_lt_neg hgt)]

/-- Rounded numbers are compared by value. -/
theorem compare_eq (hu : IsRounded u) (hw : IsRounded w) :
    u.compare w = some (compare (valueOf u) (valueOf w)) := by
  match u, w with
  | .zero _, .zero _ => rfl
  | .zero _, .finite .positive n f hn =>
    rw [valueOf_positive, valueOf_zero, compare_lt_iff_lt.mpr (magnitude_pos hn f)]
    rfl
  | .zero _, .finite .negative n f hn =>
    rw [valueOf_negative, valueOf_zero, compare_gt_iff_gt.mpr (neg_neg_of_pos (magnitude_pos hn f))]
    rfl
  | .finite .positive m e hm, .zero _ =>
    rw [valueOf_positive, valueOf_zero, compare_gt_iff_gt.mpr (magnitude_pos hm e)]
    rfl
  | .finite .negative m e hm, .zero _ =>
    rw [valueOf_negative, valueOf_zero, compare_lt_iff_lt.mpr (neg_neg_of_pos (magnitude_pos hm e))]
    rfl
  | .finite .positive m e hm, .finite .negative n f hn =>
    rw [valueOf_positive, valueOf_negative, compare_gt_iff_gt.mpr
      ((neg_neg_of_pos (magnitude_pos hn f)).trans (magnitude_pos hm e))]
    rfl
  | .finite .negative m e hm, .finite .positive n f hn =>
    rw [valueOf_positive, valueOf_negative, compare_lt_iff_lt.mpr
      ((neg_neg_of_pos (magnitude_pos hm e)).trans (magnitude_pos hn f))]
    rfl
  | .finite .positive m e hm, .finite .positive n f hn =>
    rw [valueOf_positive, valueOf_positive, ← compare_magnitudes hu.1 hu.2.1 hu.2.2 hw.1 hw.2.1
      hw.2.2]
    rfl
  | .finite .negative m e hm, .finite .negative n f hn =>
    rw [valueOf_negative, valueOf_negative, compare_neg_neg, ← compare_magnitudes hu.1 hu.2.1 hu.2.2
      hw.1 hw.2.1 hw.2.2]
    rfl

theorem unpack_pack_zero (s : Sign) : (Float.Model.pack (.zero s)).unpack = .zero s := by
  cases s <;> rfl

theorem unpack_pack_infinity (s : Sign) :
    (Float.Model.pack (.infinity s)).unpack = .infinity s := by
  cases s <;> rfl

theorem unpack_pack_notANumber : (Float.Model.pack .notANumber).unpack = .notANumber := rfl

theorem toNat_implicit_append (mantissa : BitVec 52) :
    (1#1 ++ mantissa).toNat = 2 ^ 52 + mantissa.toNat := by
  rw [BitVec.toNat_append, ← Nat.shiftLeft_add_eq_or_of_lt mantissa.isLt]
  rfl

/-- Bits with an exponent between the extremes stand for a number with an implicit bit. -/
theorem unpack_packComponents_normal {exponent : BitVec 11} {mantissa : BitVec 52} {hm : 0 < m}
    (h0 : exponent ≠ 0#11) (h1 : exponent ≠ -1#11) (he : (exponent.toNat : ℤ) = e + 1075)
    (hbits : 2 ^ 52 + mantissa.toNat = m) :
    UnpackedFloat.unpack .binary64 (packComponents .binary64 s exponent mantissa) =
      .finite s m e hm := by
  simp only [UnpackedFloat.unpack, unpackMantissa_packComponents, unpackExponent_packComponents,
    unpackSign_packComponents, Sign.ofBitVec_toBitVec]
  rw [if_neg h1, if_neg h0]
  simp only [toNat_implicit_append, hbits, he]
  congr 1
  norm_num [Format.exponentBias]

/-- Bits with the least exponent stand for a number without an implicit bit. -/
theorem unpack_packComponents_subnormal {mantissa : BitVec 52} {hm : 0 < m}
    (hbits : mantissa.toNat = m) :
    UnpackedFloat.unpack .binary64 (packComponents .binary64 s 0#11 mantissa) =
      .finite s m (-1074) hm := by
  have hne : mantissa ≠ 0#52 := by
    rintro rfl
    exact hm.ne hbits
  simp only [UnpackedFloat.unpack, unpackMantissa_packComponents, unpackExponent_packComponents,
    unpackSign_packComponents, Sign.ofBitVec_toBitVec]
  rw [if_neg (by decide), if_pos trivial, dif_neg hne]
  simp only [hbits]
  rfl

/-- A rounded number that fits is unpacked as it was packed. -/
theorem unpack_pack_finite {hm : 0 < m} (h : IsRounded (.finite s m e hm)) (hfits : e ≤ 971) :
    (Float.Model.pack (.finite s m e hm)).unpack = .finite s m e hm := by
  obtain ⟨hlt, he, hnormal⟩ := h
  have hbiased : (e + (Format.exponentBias .binary64 : ℕ) + (52 : ℕ)).toNat = (e + 1075).toNat := by
    norm_num [Format.exponentBias, add_assoc]
  have hfinite : ¬ 2 ^ 11 ≤ (e + 1075).toNat + 1 := by omega
  change UnpackedFloat.unpack .binary64 (UnpackedFloat.pack .binary64 (.finite s m e hm)) = _
  rw [UnpackedFloat.pack]
  simp only [hbiased]
  by_cases hfull : 2 ^ 52 ≤ m
  · have hlog : m.log2 = 52 := (Nat.log2_eq_iff hm.ne').mpr ⟨hfull, hlt⟩
    have htoNat : (BitVec.ofNat 11 (e + 1075).toNat).toNat = (e + 1075).toNat := by
      rw [BitVec.toNat_ofNat, Nat.mod_eq_of_lt (by omega)]
    rw [if_neg hfinite, if_pos (by rw [hlog]; rfl)]
    refine unpack_packComponents_normal (fun hzero => ?_) (fun hones => ?_) ?_ ?_
    · rw [hzero] at htoNat
      simp at htoNat
      omega
    · rw [hones] at htoNat
      simp at htoNat
      omega
    · rw [htoNat]
      omega
    · rw [BitVec.toNat_ofNat]
      omega
  · have hlog : m.log2 < 52 := (Nat.log2_lt hm.ne').mpr (not_le.mp hfull)
    obtain rfl := hnormal.resolve_left hfull
    rw [if_neg hfinite, if_neg (by rw [show Format.mantissaBits .binary64 = 53 from rfl]; omega)]
    refine unpack_packComponents_subnormal ?_
    rw [BitVec.toNat_ofNat, Nat.mod_eq_of_lt (not_le.mp hfull)]

/-- A rounded number that does not fit is packed as an infinity. -/
theorem unpack_pack_overflow {hm : 0 < m} (he : 971 < e) :
    (Float.Model.pack (.finite s m e hm)).unpack = .infinity s := by
  have hpack : UnpackedFloat.pack .binary64 (.finite s m e hm) = packedInfinity .binary64 s := by
    rw [UnpackedFloat.pack]
    refine if_pos ?_
    norm_num [Format.exponentBias]
    omega
  rw [Float.Model.pack, Float.Model.unpack]
  simp only [hpack]
  cases s <;> rfl

/-- What is unpacked from bits is rounded and fits. -/
theorem isRounded_unpack {b : BitVec 64} (h : (UnpackedFloat.unpack .binary64 b).isFinite = true) :
    IsRounded (UnpackedFloat.unpack .binary64 b) ∧ Fits (UnpackedFloat.unpack .binary64 b) := by
  revert h
  have hbits : (@unpackMantissa .binary64 b).toNat < 2 ^ 52 :=
    (@unpackMantissa .binary64 b).isLt
  have hexponent : (@unpackExponent .binary64 b).toNat < 2 ^ 11 :=
    (@unpackExponent .binary64 b).isLt
  have he : ((@unpackExponent .binary64 b).toNat : ℤ) -
      ((Format.exponentBias .binary64 : ℕ) + (52 : ℕ)) =
        (@unpackExponent .binary64 b).toNat - 1075 := by norm_num [Format.exponentBias]
  have hm : (1#1 ++ @unpackMantissa .binary64 b).toNat =
      2 ^ 52 + (@unpackMantissa .binary64 b).toNat := toNat_implicit_append _
  rw [UnpackedFloat.unpack]
  dsimp only
  split
  · split <;> rintro ⟨⟩
  · next hones =>
    split
    · next hzero =>
      split
      · exact fun _ => ⟨trivial, trivial⟩
      · have h0 : (@unpackExponent .binary64 b).toNat = 0 := by rw [hzero]; rfl
        intro _
        simp only [IsRounded, Fits, he]
        exact ⟨⟨by omega, by omega, Or.inr (by omega)⟩, by omega⟩
    · next hzero =>
      have hpos : (@unpackExponent .binary64 b).toNat ≠ 0 := fun h =>
        hzero (BitVec.eq_of_toNat_eq h)
      have hmax : (@unpackExponent .binary64 b).toNat ≠ 2047 := fun h =>
        hones (BitVec.eq_of_toNat_eq h)
      intro _
      simp only [IsRounded, Fits, hm, he]
      exact ⟨⟨by omega, by omega, Or.inl (Nat.le_add_right ..)⟩, by omega⟩

end Double

end LinearProgram

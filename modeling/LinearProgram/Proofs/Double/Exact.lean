import LinearProgram.Number.Scalar
import LinearProgram.Proofs.Double.Arithmetic

/-! # The exact values of doubles

The bits of a double are decoded twice, as the exact value that is printed and as the unpacked
number that is computed with. Both agree on what is finite, on the sign and on the magnitude.
-/

namespace LinearProgram

open Float.Model Float.Model.UnpackedFloat Double

namespace Double

theorem cast_two_pow (k : ℕ) : ((Nat.pow 2 k : ℕ) : ℚ) = 2 ^ k := by
  rw [Nat.pow_eq, Nat.cast_pow, Nat.cast_ofNat]

theorem mul_two_zpow_neg (m k : ℕ) : (m : ℚ) * 2 ^ (-k : ℤ) = m / (Nat.pow 2 k : ℕ) := by
  rw [zpow_neg, zpow_natCast, ← div_eq_mul_inv, cast_two_pow]

end Double

namespace Scalar

variable {x : Float}

/-- The bits of a double say whether it is finite. -/
theorem isFinite_iff (x : Float) : isFinite x = true ↔ x.isFinite = true := by
  have hexponent : @unpackExponent .binary64 x.toModel.toBits.toBitVec = -1#11 ↔
      (x.toBits.toNat >>> 52) % 2048 = 2047 := by
    rw [← BitVec.toNat_inj, unpackExponent, BitVec.toNat_cast, BitVec.extractLsb_toNat]
    exact Iff.rfl
  change (Exact.ofFloat x).isFinite = true ↔
    (UnpackedFloat.unpack .binary64 x.toModel.toBits.toBitVec).isFinite = true
  simp only [Exact.ofFloat, UnpackedFloat.unpack, hexponent]
  split
  · split <;> split <;> simp [Exact.isFinite, UnpackedFloat.isFinite]
  · refine iff_of_true ?_ ?_
    · split <;> [rfl; (split <;> rfl)]
    · split <;> [(split <;> rfl); rfl]

theorem exists_exact (hx : x.isFinite = true) :
    ∃ negative num den, exact x = .finite negative num den := by
  have hfinite : (exact x).isFinite = true := (isFinite_iff x).mpr hx
  cases hexact : exact x with
  | finite negative num den => exact ⟨negative, num, den, rfl⟩
  | infinite negative => rw [hexact] at hfinite; cases hfinite
  | undefined => rw [hexact] at hfinite; cases hfinite

/-- The sign of an unpacked number is its first bit. -/
theorem sign_of_unpack {b : BitVec 64} {sign : Sign}
    (h : UnpackedFloat.unpack .binary64 b = .zero sign ∨
      ∃ m e hm, UnpackedFloat.unpack .binary64 b = .finite sign m e hm) :
    sign = Sign.ofBitVec (@unpackSign .binary64 b) := by
  simp only [UnpackedFloat.unpack] at h
  split at h
  · split at h <;> rcases h with h | ⟨_, _, _, h⟩ <;> cases h
  · split at h
    · split at h <;> rcases h with h | ⟨_, _, _, h⟩ <;> cases h <;> rfl
    · rcases h with h | ⟨_, _, _, h⟩ <;> cases h
      rfl

/-- A magnitude has no minus. -/
theorem exact_abs (hx : x.isFinite = true) :
    ∃ num den, Exact.ofFloat x.abs = .finite false num den := by
  obtain ⟨hrounded, hfits⟩ := isRounded_of_isFinite hx
  have hsign : Sign.ofBitVec (@unpackSign .binary64 x.abs.toModel.toBits.toBitVec) = .positive := by
    refine (sign_of_unpack ?_).symm
    change (Float.Model.pack x.toModel.unpack.abs).unpack = _ ∨
      ∃ m e hm, (Float.Model.pack x.toModel.unpack.abs).unpack = _
    generalize x.toModel.unpack = u at hrounded hfits
    cases u with
    | zero s => exact Or.inl (unpack_pack_zero .positive)
    | finite s m e hm =>
      exact Or.inr ⟨m, e, hm, unpack_pack (u := .finite .positive m e hm) hrounded hfits⟩
    | infinity s => exact hrounded.elim
    | notANumber => exact hrounded.elim
  have hbit : (x.abs.toBits.toNat >>> 63 == 1) = false := by
    have hzero : @unpackSign .binary64 x.abs.toModel.toBits.toBitVec = 0#1 := by
      by_contra hne
      rw [Sign.ofBitVec, if_neg hne] at hsign
      cases hsign
    have hnat := congrArg BitVec.toNat hzero
    rw [unpackSign, BitVec.toNat_cast, BitVec.extractLsb_toNat] at hnat
    change x.abs.toBits.toNat >>> 63 % 2 = 0 at hnat
    rw [beq_eq_false_iff_ne]
    omega
  have hfinite := (isFinite_iff x.abs).mpr (isFinite_abs hx).1
  change (Exact.ofFloat x.abs).isFinite = true at hfinite
  simp only [Exact.ofFloat, hbit] at hfinite ⊢
  split
  · rw [if_pos ‹_›] at hfinite
    split at hfinite <;> cases hfinite
  · split
    · exact ⟨_, _, rfl⟩
    · split <;> exact ⟨_, _, rfl⟩

/-- The magnitude of a double by the fields of its bits. -/
theorem abs_valueOf_unpack {b : BitVec 64} {exponent fraction : ℕ}
    (hexponent : (@unpackExponent .binary64 b).toNat = exponent)
    (hfraction : (@unpackMantissa .binary64 b).toNat = fraction) (hfinite : exponent ≠ 2047) :
    |valueOf (UnpackedFloat.unpack .binary64 b)| =
      if exponent = 0 then (fraction : ℚ) * 2 ^ ((0 : ℤ) - 1075 + 1)
      else ((2 ^ 52 + fraction : ℕ) : ℚ) * 2 ^ ((exponent : ℤ) - 1075) := by
  have hones : @unpackExponent .binary64 b = -1#11 ↔ exponent = 2047 := by
    rw [← BitVec.toNat_inj, hexponent]
    rfl
  have hzero : @unpackExponent .binary64 b = 0#11 ↔ exponent = 0 := by
    rw [← BitVec.toNat_inj, hexponent]
    rfl
  have hbias : ((Format.exponentBias .binary64 : ℕ) + (52 : ℕ) : ℤ) = 1075 := by
    norm_num [Format.exponentBias]
  have hmantissa : (1#1 ++ @unpackMantissa .binary64 b).toNat = 2 ^ 52 + fraction := by
    rw [← hfraction]
    exact toNat_implicit_append _
  rw [UnpackedFloat.unpack]
  simp only [hones, hzero]
  rw [if_neg hfinite]
  split
  · next hsmall =>
    split
    · next hnone =>
      have hnat : fraction = 0 := hfraction ▸ congrArg BitVec.toNat hnone
      rw [hnat, valueOf_zero, abs_zero, Nat.cast_zero, zero_mul]
    · rw [abs_valueOf_finite, hexponent, hfraction, hsmall, hbias, Nat.cast_zero]
  · rw [abs_valueOf_finite, hmantissa, hexponent, hbias]

/-- The fraction of a finite double is its magnitude. -/
theorem abs_value_of_exact {negative : Bool} {num den : ℕ}
    (h : Exact.ofFloat x = .finite negative num den) : 0 < den ∧ |value x| = num / den := by
  obtain ⟨exponent, hexponent⟩ : ∃ e, e = (x.toBits.toNat >>> 52) % 2048 := ⟨_, rfl⟩
  obtain ⟨fraction, hfraction⟩ : ∃ f, f = x.toBits.toNat % Nat.pow 2 52 := ⟨_, rfl⟩
  -- the least exponent has a name, so that its power of two is not computed
  obtain ⟨least, hleast⟩ : ∃ k, k = 1074 := ⟨_, rfl⟩
  have hvalue := @abs_valueOf_unpack x.toModel.toBits.toBitVec exponent fraction
    (by rw [unpackExponent, BitVec.toNat_cast, BitVec.extractLsb_toNat, hexponent]; rfl)
    (by rw [unpackMantissa, BitVec.toNat_cast, BitVec.extractLsb_toNat, hfraction]; rfl)
  change _ → |value x| = _ at hvalue
  simp only [Exact.ofFloat, ← hexponent, ← hfraction, ← hleast] at h
  split at h
  · split at h <;> cases h
  · next hfinite =>
    rw [hvalue hfinite]
    split at h
    · next hsmall =>
      obtain ⟨-, rfl, rfl⟩ := Exact.finite.inj h
      have hexp : (0 : ℤ) - 1075 + 1 = -least := by omega
      rw [if_pos hsmall, hexp, mul_two_zpow_neg]
      exact ⟨Nat.two_pow_pos _, rfl⟩
    · next hnormal =>
      rw [if_neg hnormal]
      split at h
      · next hwhole =>
        obtain ⟨-, rfl, rfl⟩ := Exact.finite.inj h
        have hexp : (exponent : ℤ) - 1075 = (exponent - 1075 : ℕ) := (Nat.cast_sub hwhole).symm
        rw [hexp, zpow_natCast, Nat.cast_one, div_one, Nat.cast_mul, cast_two_pow]
        exact ⟨Nat.one_pos, rfl⟩
      · obtain ⟨-, rfl, rfl⟩ := Exact.finite.inj h
        have hexp : (exponent : ℤ) - 1075 = -(1075 - exponent : ℕ) := by omega
        rw [hexp]
        exact ⟨Nat.two_pow_pos _, mul_two_zpow_neg _ _⟩

end Scalar

end LinearProgram

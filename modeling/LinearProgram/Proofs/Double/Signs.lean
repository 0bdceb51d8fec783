import LinearProgram.Proofs.Double.Numeral

/-! # Signs of doubles

Negation turns the line between the infinities around, and adding zero leaves every number where it
is. Neither makes a number of what is not one. So a comparison with a negated double may be turned
around, and the sign of a zero does not decide a comparison.
-/

namespace LinearProgram

namespace Double

open Float.Model Float.Model.UnpackedFloat

section Negation

theorem unpack_neg (x : Float) : (-x).toModel.unpack = x.toModel.unpack.neg := by
  change (Float.Model.pack x.toModel.unpack.neg).unpack = _
  cases hx : x.isNaN with
  | true =>
    rw [isNaN_iff.mp hx]
    exact unpack_pack_notANumber
  | false =>
    rcases isFinite_or hx with hfinite | ⟨t, ht⟩
    · obtain ⟨hrounded, hfits⟩ := isRounded_of_isFinite hfinite
      exact unpack_pack (isRounded_neg hrounded) (fits_neg hfits)
    · rw [ht]
      exact unpack_pack_infinity (-t)

theorem isNaN_neg (x : Float) : (-x).isNaN = x.isNaN := by
  change (-x).toModel.unpack.isNaN = x.toModel.unpack.isNaN
  rw [unpack_neg]
  cases x.toModel.unpack <;> rfl

/-- Infinities change places, everything else is at its value. -/
theorem positionOf_cases (u : UnpackedFloat) :
    (positionOf u = ⊤ ∧ positionOf u.neg = ⊥) ∨ (positionOf u = ⊥ ∧ positionOf u.neg = ⊤) ∨
      ∃ q, positionOf u = mark q ∧ positionOf u.neg = mark (-q) := by
  have hvalue := valueOf_neg u
  match u with
  | .infinity .positive => exact Or.inl ⟨rfl, rfl⟩
  | .infinity .negative => exact Or.inr (Or.inl ⟨rfl, rfl⟩)
  | .notANumber | .zero _ | .finite .. => exact Or.inr (Or.inr ⟨_, rfl, congrArg mark hvalue⟩)

theorem position_lt_neg_iff (x y : Float) :
    position x < position (-y) ↔ position y < position (-x) := by
  rw [position, position, position, position, unpack_neg, unpack_neg]
  obtain ⟨hx, hx'⟩ | ⟨hx, hx'⟩ | ⟨q, hx, hx'⟩ := positionOf_cases x.toModel.unpack <;>
    obtain ⟨hy, hy'⟩ | ⟨hy, hy'⟩ | ⟨r, hy, hy'⟩ := positionOf_cases y.toModel.unpack <;>
    simp only [hx, hx', hy, hy', mark_lt_mark, lt_neg, lt_irrefl, not_top_lt, not_lt_bot,
      mark_lt_top, bot_lt_mark]

theorem lt_neg_iff (x y : Float) : x < -y ↔ y < -x := by
  rw [lt_iff, lt_iff, isNaN_neg, isNaN_neg, position_lt_neg_iff, and_left_comm]

end Negation

section UnsignedZero

variable {x : Float} {sign : Sign}

theorem unsignedZero_of_infinity (h : x.toModel.unpack = .infinity sign) :
    (Scalar.unsignedZero x).toModel.unpack = .infinity sign := by
  change (Float.Model.pack (UnpackedFloat.add .binary64 x.toModel.unpack
    (0 : Float).toModel.unpack)).unpack = _
  rw [h]
  exact unpack_pack_infinity sign

theorem isNaN_unsignedZero (x : Float) : (Scalar.unsignedZero x).isNaN = x.isNaN := by
  cases hx : x.isNaN with
  | true =>
    rw [isNaN_iff] at hx ⊢
    change (Float.Model.pack (UnpackedFloat.add .binary64 x.toModel.unpack _)).unpack = _
    rw [hx]
    exact unpack_pack_notANumber
  | false =>
    rcases isFinite_or hx with hfinite | ⟨t, ht⟩
    · exact isNaN_of_isFinite (hasValue_value hfinite).unsignedZero.1
    · exact isNaN_of_infinity (unsignedZero_of_infinity ht)

theorem position_unsignedZero (hx : x.isNaN = false) :
    position (Scalar.unsignedZero x) = position x := by
  rcases isFinite_or hx with hfinite | ⟨t, ht⟩
  · obtain ⟨hsum, hvalue⟩ := (hasValue_value hfinite).unsignedZero
    rw [position_of_isFinite hsum, hvalue, position_of_isFinite hfinite]
  · rw [position, unsignedZero_of_infinity ht, position, ht]

theorem unsignedZero_lt_iff (x y : Float) : Scalar.unsignedZero x < y ↔ x < y := by
  rw [lt_iff, lt_iff, isNaN_unsignedZero]
  exact and_congr_right fun hx => by rw [position_unsignedZero hx]

theorem lt_unsignedZero_iff (x y : Float) : x < Scalar.unsignedZero y ↔ x < y := by
  rw [lt_iff, lt_iff, isNaN_unsignedZero]
  exact and_congr_right fun _ => and_congr_right fun hy => by rw [position_unsignedZero hy]

end UnsignedZero

section NegativeZero

variable {x y : Float} {v : ℚ}

theorem eq_negativeZero_iff : x = -0 ↔ x.toModel.unpack = .zero .negative := by
  constructor
  · rintro rfl
    rfl
  · intro h
    have hbits : x.toModel.toBits.toBitVec = (-0 : Float).toModel.toBits.toBitVec :=
      (unpack_inj_of_valid x.toModel.valid (-0 : Float).toModel.valid).mp h
    exact Float.toBits_inj.mp (UInt64.toBitVec_inj.mp hbits)

theorem zero_ne_negativeZero : (0 : Float) ≠ -0 := by decide +kernel

/-- What is not zero by as much as the least double is not rounded to zero. -/
theorem Rounds.value_ne_zero (h : Rounds v x) (hv : value least ≤ |v|) : position x ≠ mark 0 := by
  have hleast : 0 < value least := value_least ▸ two_zpow_pos _
  intro hzero
  rcases abs_choice v with habs | habs <;> rw [habs] at hv
  · have hle := h.le least isFinite_least hv
    rw [hzero, position_of_isFinite isFinite_least, mark_le_mark] at hle
    exact hle.not_gt hleast
  · obtain ⟨hfinite, hvalue⟩ := isFinite_neg isFinite_least
    have hge := h.ge (-least) hfinite (by rw [hvalue]; linarith)
    rw [hzero, position_of_isFinite hfinite, mark_le_mark, hvalue] at hge
    linarith

/-- No sum of doubles but zero is rounded to zero. -/
theorem value_add_eq_zero (hx : x.isFinite = true) (hy : y.isFinite = true)
    (h : position (x + y) = mark 0) : value x + value y = 0 := by
  obtain ⟨hneg, hvalue⟩ := isFinite_neg hy
  by_contra hne
  refine (rounds_add hx hy).value_ne_zero ?_ h
  rcases lt_or_gt_of_ne hne with hlt | hgt
  · have := value_least_le_sub hneg hx (by rw [hvalue]; linarith)
    rw [hvalue] at this
    exact le_abs.mpr (Or.inr (by linarith))
  · have := value_least_le_sub hx hneg (by rw [hvalue]; linarith)
    rw [hvalue] at this
    exact le_abs.mpr (Or.inl (by linarith))

theorem isFinite_of_pack {u : UnpackedFloat} (h : (Float.Model.pack u).unpack.isFinite = true) :
    u.isFinite = true := by
  cases u with
  | infinity s =>
    rw [unpack_pack_infinity] at h
    exact h
  | notANumber => exact h
  | zero s => rfl
  | finite s m e hm => rfl

/-- A finite sum has finite operands. -/
theorem isFinite_of_add (h : (x + y).isFinite = true) :
    x.isFinite = true ∧ y.isFinite = true := by
  have h : (UnpackedFloat.add .binary64 x.toModel.unpack y.toModel.unpack).isFinite = true :=
    isFinite_of_pack h
  change x.toModel.unpack.isFinite = true ∧ y.toModel.unpack.isFinite = true
  generalize x.toModel.unpack = u at h ⊢
  generalize y.toModel.unpack = w at h ⊢
  match u, w with
  | .notANumber, _ | .infinity _, .notANumber | .zero _, .notANumber
  | .finite .., .notANumber => exact absurd h Bool.false_ne_true
  | .infinity s, .infinity t => cases s <;> cases t <;> exact absurd h Bool.false_ne_true
  | .infinity s, .zero _ | .infinity s, .finite .. | .zero _, .infinity s
  | .finite .., .infinity s => exact absurd h Bool.false_ne_true
  | .zero _, .zero _ | .zero _, .finite .. | .finite .., .zero _ | .finite .., .finite .. =>
    exact ⟨rfl, rfl⟩

/-- Opposite numbers add up to the positive zero. -/
theorem add_finite_of_valueOf {s t : Sign} {m n : ℕ} {e f : ℤ} {hm : 0 < m} {hn : 0 < n}
    (h : valueOf (.finite s m e hm) + valueOf (.finite t n f hn) = 0) :
    UnpackedFloat.add .binary64 (.finite s m e hm) (.finite t n f hn) = .zero .positive := by
  have hsum : s.apply (decreaseExponent m e (min e f)).1 +
      t.apply (decreaseExponent n f (min e f)).1 = 0 := by
    rw [valueOf, valueOf, ← cast_decreaseExponent s m (min_le_left e f),
      ← cast_decreaseExponent t n (min_le_right e f), ← add_mul] at h
    exact_mod_cast (mul_eq_zero.mp h).resolve_right (two_zpow_pos _).ne'
  change UnpackedFloat.normalize .binary64 (s.apply (decreaseExponent m e (min e f)).1 +
    t.apply (decreaseExponent n f (min e f)).1) (min e f) .positive = _
  rw [hsum]
  rfl

theorem valueOf_finite_ne_zero (s : Sign) {m : ℕ} (hm : 0 < m) (e : ℤ) :
    valueOf (.finite s m e hm) ≠ 0 := by
  rw [← abs_pos, abs_valueOf_finite]
  exact magnitude_pos hm e

/-- A sum is the negative zero only if both operands are: other sums of zero are positive. -/
theorem add_eq_negativeZero_iff : x + y = -0 ↔ x = -0 ∧ y = -0 := by
  constructor
  · intro h
    obtain ⟨hx, hy⟩ := isFinite_of_add (x := x) (y := y) (by rw [h]; decide +kernel)
    have hvalue := value_add_eq_zero hx hy (by rw [h]; rfl)
    have hsum : (Float.Model.pack (UnpackedFloat.add .binary64 x.toModel.unpack
        y.toModel.unpack)).unpack = .zero .negative := eq_negativeZero_iff.mp h
    rw [eq_negativeZero_iff, eq_negativeZero_iff]
    have hx := (isRounded_of_isFinite hx).1
    have hy := (isRounded_of_isFinite hy).1
    change valueOf _ + valueOf _ = 0 at hvalue
    generalize x.toModel.unpack = u at hx hvalue hsum ⊢
    generalize y.toModel.unpack = w at hy hvalue hsum ⊢
    match u, w with
    | .zero s, .zero t => cases s <;> cases t <;> first | exact ⟨rfl, rfl⟩ | exact nomatch hsum
    | .zero s, .finite t m e hm =>
      rw [valueOf_zero, zero_add] at hvalue
      exact absurd hvalue (valueOf_finite_ne_zero t hm e)
    | .finite t m e hm, .zero s =>
      rw [valueOf_zero, add_zero] at hvalue
      exact absurd hvalue (valueOf_finite_ne_zero t hm e)
    | .finite .., .finite .. =>
      rw [add_finite_of_valueOf hvalue] at hsum
      exact nomatch hsum
  · rintro ⟨rfl, rfl⟩
    decide +kernel

theorem foldl_add_eq_negativeZero_iff (xs : List Float) :
    xs.foldl (· + ·) x = -0 ↔ x = -0 ∧ ∀ y ∈ xs, y = -0 := by
  induction xs generalizing x with
  | nil => simp
  | cons y xs ih =>
    rw [List.foldl_cons, ih, add_eq_negativeZero_iff, List.forall_mem_cons, and_assoc]

/-- A sum starts at the negative zero and leaves it with the first term that is anything else. -/
theorem sum_eq_negativeZero_iff (xs : List Float) : Scalar.sum xs = -0 ↔ ∀ x ∈ xs, x = -0 :=
  (foldl_add_eq_negativeZero_iff xs).trans (and_iff_right rfl)

theorem unsignedZero_ne_negativeZero (x : Float) : Scalar.unsignedZero x ≠ -0 := fun h =>
  zero_ne_negativeZero (add_eq_negativeZero_iff.mp h).2

/-- Times zero, whatever has the negative sign is the negative zero. -/
theorem mul_zero_eq_negativeZero_iff (hx : x.isFinite = true) : x * 0 = -0 ↔ x < 0 ∨ x = -0 := by
  have hrounded := (isRounded_of_isFinite hx).1
  rw [eq_negativeZero_iff, eq_negativeZero_iff, (hasValue_value hx).neg_iff]
  change (Float.Model.pack (UnpackedFloat.mul .binary64 x.toModel.unpack
    (.zero .positive))).unpack = _ ↔ valueOf x.toModel.unpack < 0 ∨ _
  generalize x.toModel.unpack = u at hrounded ⊢
  match u with
  | .zero .positive => exact iff_of_false nofun (by simp [valueOf_zero])
  | .zero .negative => exact iff_of_true rfl (Or.inr rfl)
  | .finite .positive m e hm =>
    have hproduct : UnpackedFloat.mul .binary64 (.finite .positive m e hm) (.zero .positive) =
        .zero .positive := rfl
    refine iff_of_false ?_ (not_or.mpr ⟨?_, nofun⟩)
    · rw [hproduct, unpack_pack_zero]
      exact nofun
    · rw [valueOf_positive]
      exact (magnitude_pos hm e).not_gt
  | .finite .negative m e hm =>
    have hproduct : UnpackedFloat.mul .binary64 (.finite .negative m e hm) (.zero .positive) =
        .zero .negative := rfl
    refine iff_of_true ?_ (Or.inl ?_)
    · rw [hproduct, unpack_pack_zero]
    rw [valueOf_negative]
    exact neg_neg_of_pos (magnitude_pos hm e)

end NegativeZero
end Double

end LinearProgram

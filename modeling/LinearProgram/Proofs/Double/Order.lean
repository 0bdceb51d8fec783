import LinearProgram.Proofs.Double.Arithmetic

/-! # Order and arithmetic of doubles

What rounding keeps of the order: a slack that is not negative does no harm to an inequality, and a
difference is positive if and only if it should be, since no difference of doubles is rounded to
zero.
-/

namespace LinearProgram

namespace Double

open Float.Model Float.Model.UnpackedFloat

variable {x y b slack : Float} {sign : Sign}

theorem isFinite_zero : (0 : Float).isFinite = true := by decide +kernel

theorem value_zero : value 0 = 0 := rfl

theorem position_zero : position 0 = mark 0 := rfl

/-- What equals a finite double is finite, and has its value. -/
theorem beq_iff_value (hy : y.isFinite = true) :
    (x == y) = true ↔ x.isFinite = true ∧ value x = value y := by
  rw [beq_iff, position_of_isFinite hy]
  constructor
  · rintro ⟨hnan, -, hpos⟩
    rcases isFinite_or hnan with hx | ⟨s, hs⟩
    · rw [position_of_isFinite hx] at hpos
      exact ⟨hx, mark_inj.mp hpos⟩
    · rw [position, hs] at hpos
      cases s
      · exact absurd hpos (bot_lt_mark _).ne
      · exact absurd hpos (mark_lt_top _).ne'
  · rintro ⟨hx, hvalue⟩
    refine ⟨isNaN_of_isFinite hx, isNaN_of_isFinite hy, ?_⟩
    rw [position_of_isFinite hx, hvalue]

section Infinite

theorem isNaN_of_infinity (h : x.toModel.unpack = .infinity sign) : x.isNaN = false :=
  isNumber_iff_isNaN.mp (Or.inr ⟨sign, h⟩)

theorem position_eq_top (h : x.toModel.unpack = .infinity .positive) : position x = ⊤ := by
  rw [position, h]
  rfl

theorem position_eq_bot (h : x.toModel.unpack = .infinity .negative) : position x = ⊥ := by
  rw [position, h]
  rfl

/-- Finite operands do not change an infinity. -/
theorem infinity_operations (hb : b.isFinite = true) (h : x.toModel.unpack = .infinity sign) :
    (b + x).toModel.unpack = .infinity sign ∧ (b - x).toModel.unpack = .infinity (-sign) ∧
      (x - b).toModel.unpack = .infinity sign := by
  change b.toModel.unpack.isFinite = true at hb
  change
    (Float.Model.pack (UnpackedFloat.add .binary64 b.toModel.unpack x.toModel.unpack)).unpack = _ ∧
    (Float.Model.pack (UnpackedFloat.sub .binary64 b.toModel.unpack x.toModel.unpack)).unpack = _ ∧
    (Float.Model.pack (UnpackedFloat.sub .binary64 x.toModel.unpack b.toModel.unpack)).unpack = _
  rw [h]
  generalize b.toModel.unpack = u at hb
  cases u with
  | infinity t => cases hb
  | notANumber => cases hb
  | zero t =>
    exact ⟨unpack_pack_infinity sign, unpack_pack_infinity (-sign), unpack_pack_infinity sign⟩
  | finite t m e hm =>
    exact ⟨unpack_pack_infinity sign, unpack_pack_infinity (-sign), unpack_pack_infinity sign⟩

end Infinite

section Nonneg

theorem nonneg_iff : 0 ≤ x ↔ x.isNaN = false ∧ mark 0 ≤ position x := by
  rw [le_iff, position_zero]
  exact and_iff_right (isNaN_of_isFinite isFinite_zero)

/-- A number that is not negative is finite or the infinity that is not. -/
theorem isFinite_or_of_nonneg (h : 0 ≤ x) :
    x.isFinite = true ∧ 0 ≤ value x ∨ x.toModel.unpack = .infinity .positive := by
  obtain ⟨hnan, hpos⟩ := nonneg_iff.mp h
  rcases isFinite_or hnan with hx | ⟨t, ht⟩
  · rw [position_of_isFinite hx, mark_le_mark] at hpos
    exact Or.inl ⟨hx, hpos⟩
  · cases t with
    | positive => exact Or.inr ht
    | negative =>
      rw [position_eq_bot ht] at hpos
      exact absurd hpos (bot_lt_mark _).not_ge

theorem not_lt_iff (hx : x.isNaN = false) (hy : y.isNaN = false) : ¬ x < y ↔ y ≤ x := by
  rw [lt_iff, le_iff, and_iff_right hx, and_iff_right hy, and_iff_right hx, and_iff_right hy,
    not_lt]

theorem not_le_iff (hx : x.isNaN = false) (hy : y.isNaN = false) : ¬ x ≤ y ↔ y < x :=
  not_iff_comm.mp (not_lt_iff hy hx)

theorem le_trans {z : Float} (hxy : x ≤ y) (hyz : y ≤ z) : x ≤ z := by
  obtain ⟨hx, -, hxy⟩ := le_iff.mp hxy
  obtain ⟨-, hz, hyz⟩ := le_iff.mp hyz
  exact le_iff.mpr ⟨hx, hz, hxy.trans hyz⟩

/-- A slack that is not negative may be added to the larger side, or taken from the smaller one. -/
theorem le_with_slack (hb : b.isFinite = true) (hslack : 0 ≤ slack) :
    (x ≤ b → x ≤ b + slack) ∧ (b ≤ x → b - slack ≤ x) := by
  rcases isFinite_or_of_nonneg hslack with ⟨hfinite, hvalue⟩ | htop
  · have hadd := rounds_add hb hfinite
    have hsub := rounds_sub hb hfinite
    constructor
    · intro hx
      obtain ⟨hnan, -, hle⟩ := le_iff.mp hx
      refine le_iff.mpr ⟨hnan, hadd.isNaN, ?_⟩
      exact hle.trans (hadd.le b hb (le_add_of_nonneg_right hvalue))
    · intro hx
      obtain ⟨-, hnan, hle⟩ := le_iff.mp hx
      refine le_iff.mpr ⟨hsub.isNaN, hnan, ?_⟩
      exact (hsub.ge b hb (sub_le_self _ hvalue)).trans hle
  · obtain ⟨hadd, hsub, -⟩ := infinity_operations hb htop
    constructor
    · intro hx
      obtain ⟨hnan, -, -⟩ := le_iff.mp hx
      refine le_iff.mpr ⟨hnan, isNaN_of_infinity hadd, ?_⟩
      rw [position_eq_top hadd]
      exact le_top
    · intro hx
      obtain ⟨-, hnan, -⟩ := le_iff.mp hx
      refine le_iff.mpr ⟨isNaN_of_infinity hsub, hnan, ?_⟩
      rw [position_eq_bot hsub]
      exact bot_le

end Nonneg

section Differences

/-- The least positive double. -/
def least : Float := Float.ofBits 1

theorem isFinite_least : least.isFinite = true := by decide +kernel

theorem value_least : value least = 2 ^ (-1074 : ℤ) := by
  have h : least.toModel.unpack = .finite .positive 1 (-1074) one_pos := rfl
  rw [value, h, valueOf_positive, Nat.cast_one, one_mul]

/-- Every double is a multiple of the least positive one. -/
theorem exists_multiple (hx : x.isFinite = true) : ∃ n : ℤ, value x = n * value least := by
  have hrounded := (isRounded_of_isFinite hx).1
  rw [value_least, value]
  generalize x.toModel.unpack = u at hrounded
  cases u with
  | zero s => exact ⟨0, by rw [valueOf_zero, Int.cast_zero, zero_mul]⟩
  | infinity s => exact hrounded.elim
  | notANumber => exact hrounded.elim
  | finite s m e hm =>
    obtain ⟨j, rfl⟩ := Int.le.dest hrounded.2.1
    refine ⟨s.apply m * 2 ^ j, ?_⟩
    rw [valueOf, zpow_add₀ two_ne_zero, zpow_natCast, Int.cast_mul, Int.cast_pow, Int.cast_ofNat,
      mul_comm (2 ^ (-1074 : ℤ) : ℚ), mul_assoc]

/-- No double lies strictly between zero and the least positive one. -/
theorem value_least_le_sub (hx : x.isFinite = true) (hy : y.isFinite = true)
    (hlt : value y < value x) : value least ≤ value x - value y := by
  obtain ⟨n, hn⟩ := exists_multiple hx
  obtain ⟨k, hk⟩ := exists_multiple hy
  have hpos : 0 < value least := value_least ▸ two_zpow_pos _
  rw [hn, hk, mul_lt_mul_iff_left₀ hpos, Int.cast_lt] at hlt
  rw [hn, hk, ← sub_mul]
  have hone : (1 : ℚ) ≤ n - k := by exact_mod_cast Int.le_sub_left_of_add_le hlt
  exact le_mul_of_one_le_left hpos.le hone

/-- The difference of two numbers, one of them finite, is a number, and it is positive if the first
is larger. -/
theorem sub_pos_of_lt (hx : x.isNaN = false) (hb : b.isFinite = true) :
    (x - b).isNaN = false ∧ (b - x).isNaN = false ∧ (b < x → 0 < x - b) ∧ (x < b → 0 < b - x) := by
  rcases isFinite_or hx with hfinite | ⟨t, ht⟩
  · have hdiff : ∀ {y z : Float}, y.isFinite = true → z.isFinite = true → z < y → 0 < y - z := by
      intro y z hy hz hlt
      obtain ⟨-, -, hlt⟩ := lt_iff.mp hlt
      rw [position_of_isFinite hy, position_of_isFinite hz, mark_lt_mark] at hlt
      have hround := rounds_sub hy hz
      refine lt_iff.mpr ⟨isNaN_of_isFinite isFinite_zero, hround.isNaN, lt_of_lt_of_le ?_
        (hround.le least isFinite_least (value_least_le_sub hy hz hlt))⟩
      rw [position_zero, position_of_isFinite isFinite_least, mark_lt_mark, value_least]
      exact two_zpow_pos _
    exact ⟨(rounds_sub hfinite hb).isNaN, (rounds_sub hb hfinite).isNaN, hdiff hfinite hb,
      hdiff hb hfinite⟩
  · obtain ⟨-, hbx, hxb⟩ := infinity_operations hb ht
    have hpos : ∀ {y : Float}, y.toModel.unpack = .infinity .positive → 0 < y := by
      intro y hy
      refine lt_iff.mpr ⟨isNaN_of_isFinite isFinite_zero, isNaN_of_infinity hy, ?_⟩
      rw [position_eq_top hy]
      exact mark_lt_top 0
    refine ⟨isNaN_of_infinity hxb, isNaN_of_infinity hbx, fun hlt => ?_, fun hlt => ?_⟩
    · cases t with
      | positive => exact hpos hxb
      | negative =>
        have h := (lt_iff.mp hlt).2.2
        rw [position_eq_bot ht] at h
        exact absurd h not_lt_bot
    · cases t with
      | positive =>
        have h := (lt_iff.mp hlt).2.2
        rw [position_eq_top ht] at h
        exact absurd h not_top_lt
      | negative => exact hpos hbx

theorem isNaN_iff : x.isNaN = true ↔ x.toModel.unpack = .notANumber := by
  change x.toModel.unpack.isNaN = true ↔ _
  generalize x.toModel.unpack = u
  cases u <;> simp [UnpackedFloat.isNaN]

theorem isNaN_sub_of_isNaN (hx : x.isNaN = true) (b : Float) : (x - b).isNaN = true := by
  rw [isNaN_iff] at hx ⊢
  change (Float.Model.pack (UnpackedFloat.sub .binary64 x.toModel.unpack _)).unpack = _
  rw [hx]
  exact unpack_pack_notANumber

theorem isNaN_abs (x : Float) : x.abs.isNaN = x.isNaN := by
  have habs : x.abs.toModel.unpack = (Float.Model.pack x.toModel.unpack.abs).unpack := rfl
  cases hx : x.isNaN with
  | true =>
    rw [isNaN_iff] at hx ⊢
    rw [habs, hx]
    exact unpack_pack_notANumber
  | false =>
    rcases isFinite_or hx with hfinite | ⟨t, ht⟩
    · exact isNaN_of_isFinite (isFinite_abs hfinite).1
    · rw [ht] at habs
      exact isNaN_of_infinity (habs.trans (unpack_pack_infinity .positive))

end Differences

section Products

/-- A positive finite number times one that is not negative is not negative. -/
theorem nonneg_mul (hx : x.isFinite = true) (hpos : 0 < value x) (hy : 0 ≤ y) : 0 ≤ x * y := by
  rw [nonneg_iff]
  rcases isFinite_or_of_nonneg hy with ⟨hfinite, hvalue⟩ | htop
  · have hround := rounds_mul hx hfinite
    refine ⟨hround.isNaN, ?_⟩
    rw [← position_zero]
    exact hround.le 0 isFinite_zero (mul_nonneg hpos.le hvalue)
  · have hproduct : (x * y).toModel.unpack = .infinity .positive := by
      change (Float.Model.pack (UnpackedFloat.mul .binary64 x.toModel.unpack
        y.toModel.unpack)).unpack = _
      rw [value] at hpos
      rw [htop]
      have hrounded := (isRounded_of_isFinite hx).1
      generalize x.toModel.unpack = u at hpos hrounded
      cases u with
      | zero s => exact absurd hpos (lt_irrefl 0)
      | infinity s => exact hrounded.elim
      | notANumber => exact hrounded.elim
      | finite s m e hm =>
        cases s with
        | positive => exact unpack_pack_infinity .positive
        | negative =>
          rw [valueOf_negative] at hpos
          exact absurd hpos (neg_neg_of_pos (magnitude_pos hm e)).not_gt
    refine ⟨isNaN_of_infinity hproduct, ?_⟩
    rw [position_eq_top hproduct]
    exact le_top

end Products

end Double

end LinearProgram

import LinearProgram.Proofs.Double.Rounding

/-! # Arithmetic of doubles

Doubles that are numbers lie on a line between the infinities, and comparisons compare their
positions. A sum, difference or product of finite doubles is its exact value as rounded; a result
that is a double is exact.
-/

namespace LinearProgram

namespace Double

open Float.Model Float.Model.UnpackedFloat

section Extended

variable {u w : UnpackedFloat} {v : ℚ}

/-- A rational on the line between the infinities. -/
def mark (q : ℚ) : WithBot (WithTop ℚ) := WithBot.some (WithTop.some q)

theorem mark_lt_mark {q r : ℚ} : mark q < mark r ↔ q < r := by
  rw [mark, mark, WithBot.coe_lt_coe, WithTop.coe_lt_coe]

theorem mark_le_mark {q r : ℚ} : mark q ≤ mark r ↔ q ≤ r := by
  rw [mark, mark, WithBot.coe_le_coe, WithTop.coe_le_coe]

theorem mark_inj {q r : ℚ} : mark q = mark r ↔ q = r := by
  rw [mark, mark, WithBot.coe_inj, WithTop.coe_inj]

theorem mark_lt_top (q : ℚ) : mark q < ⊤ := WithBot.coe_lt_coe.mpr (WithTop.coe_lt_top q)

theorem bot_lt_mark (q : ℚ) : ⊥ < mark q := WithBot.bot_lt_coe _

/-- Where a number is on the line between the infinities; what is not a number is put at zero. -/
def positionOf : UnpackedFloat → WithBot (WithTop ℚ)
  | .infinity .positive => ⊤
  | .infinity .negative => ⊥
  | u => mark (valueOf u)

/-- A number that is rounded or infinite. -/
def IsNumber (u : UnpackedFloat) : Prop := IsRounded u ∨ ∃ s, u = .infinity s

theorem positionOf_of_isRounded (h : IsRounded u) : positionOf u = mark (valueOf u) := by
  match u with
  | .zero _ | .finite .. => rfl

theorem compare_mark (q r : ℚ) : compare (mark q) (mark r) = compare q r := by
  rcases lt_trichotomy q r with hlt | rfl | hgt
  · rw [compare_lt_iff_lt.mpr hlt, compare_lt_iff_lt.mpr (mark_lt_mark.mpr hlt)]
  · rw [compare_eq_iff_eq.mpr rfl, compare_eq_iff_eq.mpr rfl]
  · rw [compare_gt_iff_gt.mpr hgt, compare_gt_iff_gt.mpr (mark_lt_mark.mpr hgt)]

/-- Numbers are compared by position. -/
theorem compare_eq_positions (hu : IsNumber u) (hw : IsNumber w) :
    u.compare w = some (compare (positionOf u) (positionOf w)) := by
  have hbot : (⊥ : WithBot (WithTop ℚ)) < ⊤ := bot_lt_top
  rcases hu with hu | ⟨s, rfl⟩ <;> rcases hw with hw | ⟨t, rfl⟩
  · rw [compare_eq hu hw, positionOf_of_isRounded hu, positionOf_of_isRounded hw, compare_mark]
  · rw [positionOf_of_isRounded hu]
    cases t with
    | positive =>
      rw [positionOf, compare_lt_iff_lt.mpr (mark_lt_top _)]
      cases u <;> first | rfl | exact hu.elim
    | negative =>
      rw [positionOf, compare_gt_iff_gt.mpr (bot_lt_mark _)]
      cases u <;> first | rfl | exact hu.elim
  · rw [positionOf_of_isRounded hw]
    cases s with
    | positive =>
      rw [positionOf, compare_gt_iff_gt.mpr (mark_lt_top _)]
      cases w <;> first | rfl | exact hw.elim
    | negative =>
      rw [positionOf, compare_lt_iff_lt.mpr (bot_lt_mark _)]
      cases w <;> first | rfl | exact hw.elim
  · cases s <;> cases t
    · change _ = some (compare ⊥ ⊥)
      rw [compare_eq_iff_eq.mpr rfl]
      rfl
    · change _ = some (compare ⊥ ⊤)
      rw [compare_lt_iff_lt.mpr hbot]
      rfl
    · change _ = some (compare ⊤ ⊥)
      rw [compare_gt_iff_gt.mpr hbot]
      rfl
    · change _ = some (compare ⊤ ⊤)
      rw [compare_eq_iff_eq.mpr rfl]
      rfl

end Extended

section Float

variable {x y b : Float} {v : ℚ}

/-- The value of a double, zero if it is not finite. -/
def value (x : Float) : ℚ := valueOf x.toModel.unpack

/-- Where a double is on the line between the infinities. -/
def position (x : Float) : WithBot (WithTop ℚ) := positionOf x.toModel.unpack

theorem isRounded_of_isFinite (h : x.isFinite = true) :
    IsRounded x.toModel.unpack ∧ Fits x.toModel.unpack := isRounded_unpack h

theorem isFinite_of_isRounded (h : IsRounded x.toModel.unpack) : x.isFinite = true := by
  change x.toModel.unpack.isFinite = true
  generalize x.toModel.unpack = u at h ⊢
  match u with
  | .zero _ | .finite .. => rfl

theorem isNumber_iff_isNaN : IsNumber x.toModel.unpack ↔ x.isNaN = false := by
  have hfinite : x.isFinite = true → IsRounded x.toModel.unpack := fun h =>
    (isRounded_of_isFinite h).1
  change (x.toModel.unpack.isFinite = true → _) at hfinite
  change _ ↔ x.toModel.unpack.isNaN = false
  generalize x.toModel.unpack = u at hfinite ⊢
  cases u with
  | infinity s => exact iff_of_true (Or.inr ⟨s, rfl⟩) rfl
  | notANumber => exact iff_of_false (by rintro (h | ⟨s, h⟩) <;> cases h) nofun
  | zero s => exact iff_of_true (Or.inl (hfinite rfl)) rfl
  | finite s m e hm => exact iff_of_true (Or.inl (hfinite rfl)) rfl

theorem compare_positions (hx : x.isNaN = false) (hy : y.isNaN = false) :
    x.toModel.unpack.compare y.toModel.unpack = some (compare (position x) (position y)) :=
  compare_eq_positions (isNumber_iff_isNaN.mpr hx) (isNumber_iff_isNaN.mpr hy)

theorem compare_of_isNaN (h : x.isNaN = true ∨ y.isNaN = true) :
    x.toModel.unpack.compare y.toModel.unpack = none := by
  change x.toModel.unpack.isNaN = true ∨ y.toModel.unpack.isNaN = true at h
  generalize x.toModel.unpack = u at h ⊢
  generalize y.toModel.unpack = w at h ⊢
  cases u <;> cases w <;> simp_all [UnpackedFloat.isNaN, UnpackedFloat.compare]

theorem compare_eq_some_iff {o : Ordering} : x.toModel.unpack.compare y.toModel.unpack = some o ↔
    x.isNaN = false ∧ y.isNaN = false ∧ compare (position x) (position y) = o := by
  cases hx : x.isNaN with
  | true => simp [compare_of_isNaN (Or.inl hx)]
  | false =>
    cases hy : y.isNaN with
    | true => simp [compare_of_isNaN (Or.inr hy)]
    | false => simp [compare_positions hx hy]

theorem le_iff : x ≤ y ↔ x.isNaN = false ∧ y.isNaN = false ∧ position x ≤ position y := by
  have hle : x ≤ y ↔ x.toModel.unpack.le y.toModel.unpack = true := by
    change decide _ = true ↔ _
    rw [decide_eq_true_iff]
    exact Iff.rfl
  rw [hle, UnpackedFloat.le, Option.any_eq_true]
  simp only [compare_eq_some_iff]
  constructor
  · rintro ⟨_, ⟨hx, hy, rfl⟩, hle⟩
    exact ⟨hx, hy, compare_le_iff_le.mp (Ordering.isLE_iff_ne_gt.mp hle)⟩
  · rintro ⟨hx, hy, hle⟩
    exact ⟨_, ⟨hx, hy, rfl⟩, Ordering.isLE_iff_ne_gt.mpr (compare_le_iff_le.mpr hle)⟩

theorem lt_iff : x < y ↔ x.isNaN = false ∧ y.isNaN = false ∧ position x < position y := by
  have hlt : x < y ↔ x.toModel.unpack.lt y.toModel.unpack = true := by
    change decide _ = true ↔ _
    rw [decide_eq_true_iff]
    exact Iff.rfl
  rw [hlt, UnpackedFloat.lt, beq_iff_eq, compare_eq_some_iff, compare_lt_iff_lt]

theorem beq_iff : (x == y) = true ↔
    x.isNaN = false ∧ y.isNaN = false ∧ position x = position y := by
  change x.toModel.unpack.beq y.toModel.unpack = true ↔ _
  rw [UnpackedFloat.beq, beq_iff_eq, compare_eq_some_iff, compare_eq_iff_eq]

theorem position_of_isFinite (h : x.isFinite = true) :
    position x = mark (value x) :=
  positionOf_of_isRounded (isRounded_of_isFinite h).1

theorem isNaN_of_isFinite (h : x.isFinite = true) : x.isNaN = false :=
  isNumber_iff_isNaN.mp (Or.inl (isRounded_of_isFinite h).1)

/-- A double is finite, an infinity, or not a number. -/
theorem isFinite_or (h : x.isNaN = false) :
    x.isFinite = true ∨ ∃ s, x.toModel.unpack = .infinity s := by
  change x.toModel.unpack.isNaN = false at h
  change x.toModel.unpack.isFinite = true ∨ _
  generalize x.toModel.unpack = u at h
  cases u with
  | infinity s => exact Or.inr ⟨s, rfl⟩
  | notANumber => cases h
  | zero s => exact Or.inl rfl
  | finite s m e hm => exact Or.inl rfl

theorem unpack_pack {u : UnpackedFloat} (h : IsRounded u) (hfits : Fits u) :
    (Float.Model.pack u).unpack = u := by
  match u with
  | .zero s => exact unpack_pack_zero s
  | .finite s m e hm => exact unpack_pack_finite h hfits

/-- The double is the value as rounded: no finite double lies strictly between them. -/
structure Rounds (v : ℚ) (x : Float) : Prop where
  isNaN : x.isNaN = false
  le : ∀ b : Float, b.isFinite = true → value b ≤ v → position b ≤ position x
  ge : ∀ b : Float, b.isFinite = true → v ≤ value b → position x ≤ position b

/-- What does not fit is larger in magnitude than any finite double. -/
theorem abs_value_lt (hb : b.isFinite = true) {m : ℕ} {e : ℤ} (hfull : 2 ^ 52 ≤ m) (he : 971 < e) :
    |value b| < m * 2 ^ e := by
  obtain ⟨hrounded, hfits⟩ := isRounded_of_isFinite hb
  rw [value]
  generalize b.toModel.unpack = u at hrounded hfits ⊢
  match u with
  | .zero s =>
    rw [valueOf_zero, abs_zero]
    exact magnitude_pos (by omega) e
  | .finite s n f hn =>
    have hf : f ≤ 971 := hfits
    rw [abs_valueOf_finite]
    exact magnitude_lt hrounded.1 hrounded.2.1 (Or.inl hfull) (by omega)

theorem rounds_of_faithful {u : UnpackedFloat} (h : Faithful v u) :
    Rounds v ⟨Float.Model.pack u⟩ := by
  by_cases hfits : Fits u
  · have hunpack := unpack_pack h.isRounded hfits
    have hrounded : IsRounded (Float.Model.pack u).unpack := by
      rw [hunpack]
      exact h.isRounded
    have hx : Float.isFinite ⟨Float.Model.pack u⟩ = true := isFinite_of_isRounded hrounded
    have hvalue : value ⟨Float.Model.pack u⟩ = valueOf u := congrArg valueOf hunpack
    refine ⟨isNaN_of_isFinite hx, fun b hb hle => ?_, fun b hb hge => ?_⟩
    · rw [position_of_isFinite hb, position_of_isFinite hx, mark_le_mark, hvalue]
      exact h.le _ (isRounded_of_isFinite hb).1 hle
    · rw [position_of_isFinite hb, position_of_isFinite hx, mark_le_mark, hvalue]
      exact h.ge _ (isRounded_of_isFinite hb).1 hge
  · match u with
    | .zero s => exact absurd trivial hfits
    | .finite s m e hm =>
      have he : 971 < e := not_le.mp hfits
      have hfull : 2 ^ 52 ≤ m := h.isRounded.2.2.resolve_right (by omega)
      have hunpack : (Float.Model.pack (.finite s m e hm)).unpack = .infinity s :=
        unpack_pack_overflow he
      refine ⟨isNumber_iff_isNaN.mp (Or.inr ⟨s, hunpack⟩), fun b hb hle => ?_, fun b hb hge => ?_⟩
      all_goals
        have hout := abs_lt.mp (abs_value_lt hb hfull he)
        rw [position, position, hunpack]
        cases s
      · have := h.le _ (isRounded_of_isFinite hb).1 hle
        rw [valueOf_negative] at this
        exact absurd this hout.1.not_ge
      · exact le_top
      · exact bot_le
      · have := h.ge _ (isRounded_of_isFinite hb).1 hge
        rw [valueOf_positive] at this
        exact absurd this hout.2.not_ge

theorem rounds_add (hx : x.isFinite = true) (hy : y.isFinite = true) :
    Rounds (value x + value y) (x + y) :=
  rounds_of_faithful (faithful_add (isRounded_of_isFinite hx).1 (isRounded_of_isFinite hy).1)

theorem rounds_sub (hx : x.isFinite = true) (hy : y.isFinite = true) :
    Rounds (value x - value y) (x - y) :=
  rounds_of_faithful (faithful_sub (isRounded_of_isFinite hx).1 (isRounded_of_isFinite hy).1)

theorem rounds_mul (hx : x.isFinite = true) (hy : y.isFinite = true) :
    Rounds (value x * value y) (x * y) :=
  rounds_of_faithful (faithful_mul (isRounded_of_isFinite hx).1 (isRounded_of_isFinite hy).1)

/-- A result that is a double is exact. -/
theorem Rounds.eq_value (h : Rounds v x) (hb : b.isFinite = true) (hv : value b = v) :
    x.isFinite = true ∧ value x = v := by
  have hpos : position x = mark (value b) := by
    rw [← position_of_isFinite hb]
    exact le_antisymm (h.ge b hb hv.ge) (h.le b hb hv.le)
  rcases isFinite_or h.isNaN with hx | ⟨s, hs⟩
  · refine ⟨hx, ?_⟩
    rw [position_of_isFinite hx] at hpos
    rw [← hv]
    exact mark_inj.mp hpos
  · rw [position, hs] at hpos
    cases s
    · exact absurd hpos (bot_lt_mark _).ne
    · exact absurd hpos (mark_lt_top _).ne'

theorem fits_neg {u : UnpackedFloat} (h : Fits u) : Fits u.neg := by
  cases u <;> exact h

theorem isFinite_neg (hx : x.isFinite = true) : (-x).isFinite = true ∧ value (-x) = -value x := by
  obtain ⟨hrounded, hfits⟩ := isRounded_of_isFinite hx
  have hunpack : (-x).toModel.unpack = x.toModel.unpack.neg :=
    unpack_pack (isRounded_neg hrounded) (fits_neg hfits)
  refine ⟨isFinite_of_isRounded (hunpack ▸ isRounded_neg hrounded), ?_⟩
  rw [value, hunpack, valueOf_neg, value]

theorem isFinite_abs (hx : x.isFinite = true) :
    x.abs.isFinite = true ∧ value x.abs = |value x| := by
  obtain ⟨hrounded, hfits⟩ := isRounded_of_isFinite hx
  have habs : ∀ u, IsRounded u → Fits u →
      (Float.Model.pack u.abs).unpack = u.abs ∧ IsRounded u.abs ∧ valueOf u.abs = |valueOf u| := by
    intro u hu hfits
    match u with
    | .zero s => exact ⟨unpack_pack_zero .positive, trivial, abs_zero.symm⟩
    | .finite .positive m e hm =>
      exact ⟨unpack_pack hu hfits, hu, (abs_of_pos (magnitude_pos hm e)).symm⟩
    | .finite .negative m e hm =>
      refine ⟨unpack_pack (u := .finite .positive m e hm) hu hfits, hu, ?_⟩
      rw [valueOf_negative, abs_neg, abs_of_pos (magnitude_pos hm e)]
      rfl
  obtain ⟨hunpack, hrounded, hvalue⟩ := habs _ hrounded hfits
  have hx : x.abs.toModel.unpack = x.toModel.unpack.abs := hunpack
  exact ⟨isFinite_of_isRounded (hx ▸ hrounded), by rw [value, hx, hvalue, value]⟩

end Float

end Double

end LinearProgram

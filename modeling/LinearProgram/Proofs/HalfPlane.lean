import Mathlib.Algebra.Field.Rat
import Mathlib.Algebra.Order.Ring.Rat
import Mathlib.Analysis.Convex.Extreme
import Mathlib.Tactic.LinearCombination
import Mathlib.Tactic.Linarith
import Mathlib.Tactic.Ring
import LinearProgram.Number.Scalar

/-! # Half-planes

The common points of finitely many half-planes. Their extreme points are the vertices, where the
boundaries of two half-planes cross. If the common points hold no line, a linear objective with a
bound on them leads from any of them to a vertex that is at least as good.
-/

namespace LinearProgram

/-- The product of two vectors of the plane. -/
def pairing (n q : ℚ × ℚ) : ℚ := n.1 * q.1 + n.2 * q.2

/-- The determinant of two vectors, zero if they are parallel. -/
def determinant (n m : ℚ × ℚ) : ℚ := n.1 * m.2 - m.1 * n.2

variable {n m q r d : ℚ × ℚ}

theorem pairing_add_smul (n q d : ℚ × ℚ) (t : ℚ) :
    pairing n (q + t • d) = pairing n q + t * pairing n d := by
  simp only [pairing, Prod.fst_add, Prod.snd_add, Prod.smul_fst, Prod.smul_snd, smul_eq_mul]
  ring

theorem pairing_neg (n d : ℚ × ℚ) : pairing n (-d) = -pairing n d := by
  simp only [pairing, Prod.fst_neg, Prod.snd_neg]
  ring

theorem neg_pairing (n d : ℚ × ℚ) : pairing (-n) d = -pairing n d := by
  simp only [pairing, Prod.fst_neg, Prod.snd_neg]
  ring

theorem zero_pairing (q : ℚ × ℚ) : pairing 0 q = 0 := by simp [pairing]

/-- Products with two vectors that are not parallel determine a point. -/
theorem eq_of_pairing_eq (hc : determinant n m ≠ 0) (hn : pairing n q = pairing n r)
    (hm : pairing m q = pairing m r) : q = r := by
  simp only [pairing] at hn hm
  simp only [determinant] at hc
  apply Prod.ext
  · apply mul_left_cancel₀ hc
    linear_combination m.2 * hn - n.2 * hm
  · apply mul_left_cancel₀ hc
    linear_combination n.1 * hm - m.1 * hn

/-- The points whose product with the normal is at most the bound. -/
structure HalfPlane where
  normal : ℚ × ℚ
  bound : ℚ
  deriving DecidableEq

namespace HalfPlane

def Contains (h : HalfPlane) (q : ℚ × ℚ) : Prop := pairing h.normal q ≤ h.bound

/-- The point is on the boundary. -/
def Tight (h : HalfPlane) (q : ℚ × ℚ) : Prop := pairing h.normal q = h.bound

instance (h : HalfPlane) (q : ℚ × ℚ) : Decidable (h.Tight q) :=
  inferInstanceAs (Decidable (_ = _))

/-- How often a direction has to be added to a point to reach the boundary. -/
def distance (q d : ℚ × ℚ) (h : HalfPlane) : ℚ :=
  (h.bound - pairing h.normal q) / pairing h.normal d

/-- The half-plane on the other side of the boundary. -/
def opposite (h : HalfPlane) : HalfPlane := ⟨-h.normal, -h.bound⟩

def commonPoints (l : List HalfPlane) : Set (ℚ × ℚ) := {q | ∀ h ∈ l, h.Contains q}

/-- A common point where two boundaries cross. -/
structure IsVertex (l : List HalfPlane) (q : ℚ × ℚ) : Prop where
  mem : q ∈ commonPoints l
  crossing : ∃ h ∈ l, ∃ k ∈ l, h.Tight q ∧ k.Tight q ∧ determinant h.normal k.normal ≠ 0

/-- No direction is parallel to all boundaries, so the common points hold no line. -/
def IsPointed (l : List HalfPlane) : Prop := ∀ d ≠ 0, ∃ h ∈ l, pairing h.normal d ≠ 0

variable {h : HalfPlane} {l : List HalfPlane} {bound : ℚ}

theorem contains_opposite : h.opposite.Contains q ↔ h.bound ≤ pairing h.normal q := by
  rw [Contains, opposite, neg_pairing, neg_le_neg_iff]

theorem tight_opposite : h.opposite.Tight q ↔ h.Tight q := by
  rw [Tight, Tight, opposite, neg_pairing, neg_inj]

section Moves

/-- Along a direction that leaves some half-plane, the first boundary in the way is reached. -/
theorem exists_tight_move (hq : q ∈ commonPoints l) (hd : ∃ h ∈ l, 0 < pairing h.normal d) :
    ∃ t : ℚ, 0 ≤ t ∧ q + t • d ∈ commonPoints l ∧
      ∃ h ∈ l, 0 < pairing h.normal d ∧ h.Tight (q + t • d) := by
  let inTheWay := l.toFinset.filter fun h => 0 < pairing h.normal d
  obtain ⟨first, hfirst, hmin⟩ := inTheWay.exists_min_image (distance q d)
    (by simpa [inTheWay, Finset.Nonempty] using hd)
  simp only [inTheWay, Finset.mem_filter, List.mem_toFinset] at hfirst hmin
  obtain ⟨hmem, hpos⟩ := hfirst
  have h0 : 0 ≤ first.distance q d := div_nonneg (sub_nonneg.mpr (hq first hmem)) hpos.le
  refine ⟨first.distance q d, h0, ?_, first, hmem, hpos, ?_⟩
  · intro h hh
    have hin : pairing h.normal q ≤ h.bound := hq h hh
    rw [Contains, pairing_add_smul]
    rcases le_or_gt (pairing h.normal d) 0 with hle | hgt
    · have := mul_nonpos_of_nonneg_of_nonpos h0 hle
      linarith
    · have := (le_div_iff₀ hgt).mp (hmin h ⟨hh, hgt⟩)
      linarith
  · rw [Tight, pairing_add_smul, distance, div_mul_cancel₀ _ hpos.ne']
    ring

/-- Along a direction that leaves no half-plane at a tight boundary, one can move some way. -/
theorem exists_move (hq : q ∈ commonPoints l)
    (hd : ∀ h ∈ l, h.Tight q → pairing h.normal d ≤ 0) :
    ∃ t : ℚ, 0 < t ∧ q + t • d ∈ commonPoints l := by
  by_cases hout : ∃ h ∈ l, 0 < pairing h.normal d
  · obtain ⟨t, h0, hmem, h, hh, hpos, htight⟩ := exists_tight_move hq hout
    refine ⟨t, lt_of_le_of_ne h0 ?_, hmem⟩
    rintro rfl
    rw [zero_smul, add_zero] at htight
    exact absurd hpos (hd h hh htight).not_gt
  · push Not at hout
    refine ⟨1, one_pos, fun h hh => ?_⟩
    have hin : pairing h.normal q ≤ h.bound := hq h hh
    rw [Contains, pairing_add_smul]
    linarith [hout h hh]

/-- Where no two tight boundaries cross, some direction is parallel to all of them. -/
theorem exists_parallel_direction
    (hflat : ∀ h ∈ l, ∀ k ∈ l, h.Tight q → k.Tight q → determinant h.normal k.normal = 0) :
    ∃ d ≠ 0, ∀ h ∈ l, h.Tight q → pairing h.normal d = 0 := by
  by_cases hex : ∃ h ∈ l, h.Tight q ∧ h.normal ≠ 0
  · obtain ⟨h, hh, htight, hne⟩ := hex
    refine ⟨(-h.normal.2, h.normal.1), ?_, fun k hk hk' => ?_⟩
    · intro hzero
      obtain ⟨h2, h1⟩ := Prod.mk.inj hzero
      exact hne (Prod.ext h1 (neg_eq_zero.mp h2))
    · have := hflat h hh k hk htight hk'
      simp only [determinant] at this
      simp only [pairing]
      linarith
  · push Not at hex
    refine ⟨(1, 0), by simp, fun h hh htight => ?_⟩
    rw [hex h hh htight, zero_pairing]

end Moves

section Extreme

/-- A boundary that is tight inside a segment of common points is tight at its ends. -/
theorem Tight.left_of_mem_openSegment (htight : h.Tight q) (hr : h.Contains r) {s : ℚ × ℚ}
    (hs : h.Contains s) (hq : q ∈ openSegment ℚ r s) : h.Tight r := by
  obtain ⟨a, b, ha, hb, hab, rfl⟩ := hq
  have hsum : a * pairing h.normal r + b * pairing h.normal s = h.bound := by
    rw [← htight]
    simp only [pairing, Prod.fst_add, Prod.snd_add, Prod.smul_fst, Prod.smul_snd, smul_eq_mul]
    ring
  refine le_antisymm hr (le_of_mul_le_mul_left ?_ ha)
  have hbs := mul_le_mul_of_nonneg_left hs hb.le
  have hbound : a * h.bound + b * h.bound = h.bound := by rw [← add_mul, hab, one_mul]
  linarith

theorem IsVertex.mem_extremePoints (hq : IsVertex l q) : q ∈ (commonPoints l).extremePoints ℚ := by
  refine ⟨hq.mem, fun r hr s hs hseg => ?_⟩
  obtain ⟨h, hh, k, hk, hth, htk, hcross⟩ := hq.crossing
  have hrh : h.Tight r := hth.left_of_mem_openSegment (hr h hh) (hs h hh) hseg
  have hrk : k.Tight r := htk.left_of_mem_openSegment (hr k hk) (hs k hk) hseg
  exact eq_of_pairing_eq hcross (hrh.trans hth.symm) (hrk.trans htk.symm)

theorem isVertex_of_mem_extremePoints (hq : q ∈ (commonPoints l).extremePoints ℚ) :
    IsVertex l q := by
  obtain ⟨hmem, hext⟩ := hq
  refine ⟨hmem, ?_⟩
  by_contra hno
  push Not at hno
  obtain ⟨d, hd, hpar⟩ := exists_parallel_direction hno
  -- One can move some way in both directions, so the point lies inside a segment.
  obtain ⟨t, ht, hfore⟩ := exists_move (d := d) hmem fun h hh hth => (hpar h hh hth).le
  obtain ⟨s, hs, hback⟩ := exists_move (d := -d) hmem fun h hh hth => by
    rw [pairing_neg, hpar h hh hth, neg_zero]
  have hsum : t + s ≠ 0 := (add_pos ht hs).ne'
  have hseg : q ∈ openSegment ℚ (q + t • d) (q + s • -d) := by
    refine ⟨s / (t + s), t / (t + s), by positivity, by positivity, ?_, ?_⟩
    · rw [← add_div, add_comm s t, div_self hsum]
    · apply Prod.ext <;>
        simp only [Prod.fst_add, Prod.snd_add, Prod.smul_fst, Prod.smul_snd, Prod.fst_neg,
          Prod.snd_neg, smul_eq_mul] <;> field_simp <;> ring
  have heq := hext hfore hback hseg
  rw [add_eq_left, smul_eq_zero] at heq
  exact heq.elim ht.ne' hd

/-- The extreme points are the vertices. -/
theorem mem_extremePoints_iff : q ∈ (commonPoints l).extremePoints ℚ ↔ IsVertex l q :=
  ⟨isVertex_of_mem_extremePoints, IsVertex.mem_extremePoints⟩

end Extreme

section Bounded

variable (hp : IsPointed l) (hb : ∀ r ∈ commonPoints l, pairing n r ≤ bound)

include hp hb

/-- Of the two senses of a direction, one does not lose and leads to a boundary. -/
theorem exists_improving_direction (hq : q ∈ commonPoints l) (hd : d ≠ 0) :
    ∃ e, (e = d ∨ e = -d) ∧ 0 ≤ pairing n e ∧ ∃ h ∈ l, 0 < pairing h.normal e := by
  -- A direction that gains leads to a boundary, since the objective has a bound.
  have hgain : ∀ e, 0 < pairing n e → ∃ h ∈ l, 0 < pairing h.normal e := by
    intro e he
    by_contra hno
    push Not at hno
    have h0 : 0 ≤ bound - pairing n q := sub_nonneg.mpr (hb q hq)
    have hfar : q + ((bound - pairing n q + 1) / pairing n e) • e ∈ commonPoints l := by
      intro h hh
      have hin : pairing h.normal q ≤ h.bound := hq h hh
      have := mul_nonpos_of_nonneg_of_nonpos
        (div_nonneg (add_nonneg h0 zero_le_one) he.le) (hno h hh)
      rw [Contains, pairing_add_smul]
      linarith
    have := hb _ hfar
    rw [pairing_add_smul, div_mul_cancel₀ _ he.ne'] at this
    linarith
  rcases lt_trichotomy (pairing n d) 0 with hneg | hzero | hpos
  · have hpos : 0 < pairing n (-d) := by
      rw [pairing_neg]
      exact neg_pos.mpr hneg
    exact ⟨-d, Or.inr rfl, hpos.le, hgain _ hpos⟩
  · obtain ⟨h, hh, hne⟩ := hp d hd
    rcases lt_or_gt_of_ne hne with hlt | hgt
    · refine ⟨-d, Or.inr rfl, by rw [pairing_neg, hzero, neg_zero], h, hh, ?_⟩
      rw [pairing_neg]
      exact neg_pos.mpr hlt
    · exact ⟨d, Or.inl rfl, hzero.ge, h, hh, hgt⟩
  · exact ⟨d, Or.inl rfl, hpos.le, hgain d hpos⟩

/-- Where no two boundaries cross one can move on until one more boundary is tight. -/
theorem exists_better_tight (hq : q ∈ commonPoints l) (hno : ¬ IsVertex l q) :
    ∃ r ∈ commonPoints l, pairing n q ≤ pairing n r ∧ (∀ h ∈ l, h.Tight q → h.Tight r) ∧
      ∃ h ∈ l, h.Tight r ∧ ¬ h.Tight q := by
  have hflat : ∀ h ∈ l, ∀ k ∈ l, h.Tight q → k.Tight q → determinant h.normal k.normal = 0 := by
    intro h hh k hk hth htk
    by_contra hcross
    exact hno ⟨hq, h, hh, k, hk, hth, htk, hcross⟩
  obtain ⟨d, hd, hpar⟩ := exists_parallel_direction hflat
  obtain ⟨e, he, hgain, hout⟩ := exists_improving_direction hp hb hq hd
  have hparallel : ∀ h ∈ l, h.Tight q → pairing h.normal e = 0 := by
    intro h hh hth
    rcases he with rfl | rfl
    · exact hpar h hh hth
    · rw [pairing_neg, hpar h hh hth, neg_zero]
  obtain ⟨t, h0, hmem, h, hh, hpos, htight⟩ := exists_tight_move hq hout
  refine ⟨q + t • e, hmem, ?_, fun k hk hth => ?_, h, hh, htight, fun hth => ?_⟩
  · rw [pairing_add_smul]
    exact le_add_of_nonneg_right (mul_nonneg h0 hgain)
  · rw [Tight, pairing_add_smul, hparallel k hk hth, mul_zero, add_zero]
    exact hth
  · exact hpos.ne' (hparallel h hh hth)

/-- No common point is better than all vertices. -/
theorem exists_isVertex_ge (hq : q ∈ commonPoints l) :
    ∃ v, IsVertex l v ∧ pairing n q ≤ pairing n v := by
  -- Every move makes one more boundary tight, so the number of the others falls.
  induction hcount : (l.toFinset.filter fun h => ¬ h.Tight q).card
    using Nat.strong_induction_on generalizing q with
  | _ count ih =>
    by_cases hvertex : IsVertex l q
    · exact ⟨q, hvertex, le_rfl⟩
    · obtain ⟨r, hr, hle, hkeep, h, hh, htight, hnew⟩ := exists_better_tight hp hb hq hvertex
      have hfewer : (l.toFinset.filter fun h => ¬ h.Tight r).card < count := by
        rw [← hcount]
        apply Finset.card_lt_card
        rw [Finset.ssubset_iff_of_subset]
        · exact ⟨h, by simp [hh, hnew], by simp [htight]⟩
        · intro k hk
          simp only [Finset.mem_filter, List.mem_toFinset] at hk ⊢
          exact ⟨hk.1, fun hth => hk.2 (hkeep k hk.1 hth)⟩
      obtain ⟨v, hv, hrv⟩ := ih _ hfewer hr rfl
      exact ⟨v, hv, hle.trans hrv⟩

end Bounded

end HalfPlane

end LinearProgram

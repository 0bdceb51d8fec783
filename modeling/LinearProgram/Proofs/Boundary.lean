import LinearProgram.Proofs.HalfPlane
import LinearProgram.Proofs.Region
import LinearProgram.Plane.Line

/-! # The boundary of a region in the plane

The feasible region of a problem in two variables consists of the common points of half-planes: one
for each axis and each inequality, two for each equation. Their boundaries are the lines that are
crossed, but for rows without coefficients. So the crossings that are feasible are the extreme
points of the region.
-/

namespace LinearProgram

theorem Relation.holds_zero {relation : Relation} {lhs rhs : ℚ} :
    relation.holds 0 lhs rhs = true ↔ relation.Exactly lhs rhs := by
  cases relation with
  | le => simp only [holds, Exactly, zero_mul, add_zero, decide_eq_true_eq]
  | ge => simp only [holds, Exactly, zero_mul, sub_zero, decide_eq_true_eq]
  | eq =>
    simp only [holds, Exactly, Scalar.approxEq, Scalar.abs_eq, zero_mul, decide_eq_true_eq,
      abs_nonpos_iff, sub_eq_zero]

/-- The half-planes whose common points are so related to the boundary. -/
def Relation.sides (h : HalfPlane) : Relation → List HalfPlane
  | le => [h]
  | ge => [h.opposite]
  | eq => [h, h.opposite]

theorem Relation.forall_mem_sides {relation : Relation} {h : HalfPlane} {q : ℚ × ℚ} :
    (∀ k ∈ relation.sides h, k.Contains q) ↔ relation.Exactly (pairing h.normal q) h.bound := by
  cases relation with
  | le => simp [sides, Exactly, HalfPlane.Contains]
  | ge => simp [sides, Exactly, HalfPlane.contains_opposite]
  | eq =>
    simp only [sides, Exactly, List.forall_mem_cons, List.not_mem_nil, false_imp_iff, implies_true,
      and_true, HalfPlane.contains_opposite]
    exact (le_antisymm_iff (a := pairing h.normal q)).symm

namespace Line

variable {l m : Line ℚ} {h k : HalfPlane} {q : ℚ × ℚ}

/-- One of the two half-planes that the line bounds. -/
def side (l : Line ℚ) : HalfPlane := ⟨(l.a, l.b), l.c⟩

/-- The line is the boundary of the half-plane. -/
def Bounds (l : Line ℚ) (h : HalfPlane) : Prop := h = l.side ∨ h = l.side.opposite

theorem bounds_of_mem_sides {relation : Relation} (hh : h ∈ relation.sides l.side) :
    l.Bounds h := by
  cases relation <;> simp_all [Relation.sides, Bounds]

theorem exists_mem_sides (relation : Relation) (l : Line ℚ) :
    ∃ h ∈ relation.sides l.side, l.Bounds h := by
  cases relation with
  | le => exact ⟨l.side, by simp [Relation.sides], Or.inl rfl⟩
  | ge => exact ⟨l.side.opposite, by simp [Relation.sides], Or.inr rfl⟩
  | eq => exact ⟨l.side, by simp [Relation.sides], Or.inl rfl⟩

theorem Bounds.tight_iff (hb : l.Bounds h) : h.Tight q ↔ l.side.Tight q := by
  rcases hb with rfl | rfl
  · exact Iff.rfl
  · exact HalfPlane.tight_opposite

theorem Bounds.determinant_eq_zero_iff (hb : l.Bounds h) (hb' : m.Bounds k) :
    determinant h.normal k.normal = 0 ↔ determinant l.side.normal m.side.normal = 0 := by
  have hneg : ∀ u v : ℚ × ℚ, determinant (-u) v = -determinant u v ∧
      determinant u (-v) = -determinant u v := by
    intro u v
    simp only [determinant, Prod.fst_neg, Prod.snd_neg]
    constructor <;> ring
  rcases hb with rfl | rfl <;> rcases hb' with rfl | rfl <;>
    simp [HalfPlane.opposite, hneg]

/-- Without a tolerance two lines have a common point by Cramer's rule if and only if they are not
parallel. -/
theorem intersection_zero_eq_some_iff {q : Point ℚ} : l.intersection 0 m = some q ↔
    l.side.Tight (q.x, q.y) ∧ m.side.Tight (q.x, q.y) ∧
      determinant l.side.normal m.side.normal ≠ 0 := by
  obtain ⟨x, y⟩ := q
  have hdet : determinant l.side.normal m.side.normal = l.a * m.b - m.a * l.b := rfl
  simp only [intersection, Scalar.abs_eq, Scalar.unsignedZero_eq, zero_mul, abs_nonpos_iff, hdet]
  by_cases hzero : l.a * m.b - m.a * l.b = 0
  · simp [hzero]
  · have hcramer : l.side.Tight ((l.c * m.b - m.c * l.b) / (l.a * m.b - m.a * l.b),
          (l.a * m.c - m.a * l.c) / (l.a * m.b - m.a * l.b)) ∧
        m.side.Tight ((l.c * m.b - m.c * l.b) / (l.a * m.b - m.a * l.b),
          (l.a * m.c - m.a * l.c) / (l.a * m.b - m.a * l.b)) := by
      simp only [HalfPlane.Tight, side, pairing, ← mul_div_assoc, ← add_div, div_eq_iff hzero]
      constructor <;> ring
    rw [if_neg hzero, Option.some.injEq, Point.mk.injEq]
    constructor
    · rintro ⟨rfl, rfl⟩
      exact ⟨hcramer.1, hcramer.2, hzero⟩
    · rintro ⟨hl, hm, -⟩
      exact Prod.mk.inj (eq_of_pairing_eq (hdet ▸ hzero) (hcramer.1.trans hl.symm)
        (hcramer.2.trans hm.symm))

end Line

section Pairs

variable {β : Type} {x y : β} {l : List β}

theorem mem_of_mem_pairs (h : (x, y) ∈ pairs l) : x ∈ l ∧ y ∈ l := by
  induction l with
  | nil => simp [pairs] at h
  | cons z l ih =>
    rw [pairs, List.mem_append, List.mem_map] at h
    rcases h with ⟨w, hw, heq⟩ | h
    · obtain ⟨rfl, rfl⟩ := Prod.mk.inj heq
      exact ⟨List.mem_cons_self, List.mem_cons_of_mem _ hw⟩
    · exact ⟨List.mem_cons_of_mem _ (ih h).1, List.mem_cons_of_mem _ (ih h).2⟩

/-- Two different entries are a pair in one of the two orders. -/
theorem mem_pairs_or (hx : x ∈ l) (hy : y ∈ l) (hne : x ≠ y) :
    (x, y) ∈ pairs l ∨ (y, x) ∈ pairs l := by
  induction l with
  | nil => cases hx
  | cons z l ih =>
    simp only [pairs, List.mem_append, List.mem_map, Prod.mk.injEq]
    rcases List.mem_cons.mp hx with rfl | hxl
    · rcases List.mem_cons.mp hy with rfl | hyl
      · exact absurd rfl hne
      · exact Or.inl (Or.inl ⟨y, hyl, rfl, rfl⟩)
    · rcases List.mem_cons.mp hy with rfl | hyl
      · exact Or.inr (Or.inl ⟨x, hxl, rfl, rfl⟩)
      · exact (ih hxl hyl).imp Or.inr Or.inr

end Pairs

/-- The points where lines cross are those on two lines that are not parallel. -/
theorem mem_crossings_iff {lines : List (Line ℚ)} {q : Point ℚ} :
    q ∈ (crossings 0 lines).filterMap (·.point) ↔ ∃ l ∈ lines, ∃ m ∈ lines,
      l.side.Tight (q.x, q.y) ∧ m.side.Tight (q.x, q.y) ∧
        determinant l.side.normal m.side.normal ≠ 0 := by
  have hpair : q ∈ (crossings 0 lines).filterMap (·.point) ↔
      ∃ l m, (l, m) ∈ pairs lines ∧ l.intersection 0 m = some q := by
    simp [crossings, Line.crossing]
  rw [hpair]
  constructor
  · rintro ⟨l, m, hmem, hq⟩
    obtain ⟨hl, hm⟩ := mem_of_mem_pairs hmem
    exact ⟨l, hl, m, hm, Line.intersection_zero_eq_some_iff.mp hq⟩
  · rintro ⟨l, hl, m, hm, htl, htm, hdet⟩
    have hne : l ≠ m := by
      rintro rfl
      exact hdet (sub_self _)
    rcases mem_pairs_or hl hm hne with hmem | hmem
    · exact ⟨l, m, hmem, Line.intersection_zero_eq_some_iff.mpr ⟨htl, htm, hdet⟩⟩
    · refine ⟨m, l, hmem, Line.intersection_zero_eq_some_iff.mpr ⟨htm, htl, ?_⟩⟩
      rw [determinant, ← neg_sub, neg_ne_zero]
      exact hdet

namespace Constraint

variable {c : Constraint ℚ}

/-- One of the two half-planes on whose boundary the constraint is tight. -/
def side (c : Constraint ℚ) : HalfPlane := (c.line "").side

theorem lhs_pair (hc : c.coefficients.length = 2) (x y : ℚ) :
    c.lhs [x, y] = pairing c.side.normal (x, y) := by
  obtain ⟨coefficients, relation, bound⟩ := c
  obtain ⟨a, b, rfl⟩ := List.length_eq_two.mp hc
  simp [lhs, Scalar.dot, Scalar.sum_eq, side, line, Line.side, pairing]

theorem isDegenerate_zero_iff (hc : c.coefficients.length = 2) :
    c.isDegenerate 0 = true ↔ c.side.normal = 0 := by
  obtain ⟨coefficients, relation, bound⟩ := c
  obtain ⟨a, b, rfl⟩ := List.length_eq_two.mp hc
  simp [isDegenerate, Scalar.abs_eq, side, line, Line.side]

end Constraint

namespace Problem

variable {p : Problem ℚ} {q : Point ℚ} {h : HalfPlane} {l : Line ℚ}

/-- The points of the plane that satisfy a problem in two variables. -/
def region (p : Problem ℚ) : Set (ℚ × ℚ) := {q | p.Feasible [q.1, q.2]}

/-- The conditions of a problem in two variables, the axes first. -/
def halfPlanes (p : Problem ℚ) : List HalfPlane :=
  axes.flatMap (fun l => Relation.ge.sides l.side) ++
    p.constraints.flatMap fun c => c.relation.sides c.side

theorem mem_halfPlanes : h ∈ p.halfPlanes ↔ (∃ l ∈ axes, h ∈ Relation.ge.sides l.side) ∨
    ∃ c ∈ p.constraints, h ∈ c.relation.sides c.side := by
  rw [halfPlanes, List.mem_append, List.mem_flatMap, List.mem_flatMap]

theorem isPointed_halfPlanes (p : Problem ℚ) : HalfPlane.IsPointed p.halfPlanes := by
  intro d hd
  have hmem : ∀ l ∈ axes, l.side.opposite ∈ p.halfPlanes := fun l hl =>
    mem_halfPlanes.mpr (Or.inl ⟨l, hl, List.mem_singleton_self _⟩)
  by_contra hno
  push Not at hno
  have hx := hno _ (hmem ⟨"x = 0", 1, 0, 0⟩ (by simp [axes]))
  have hy := hno _ (hmem ⟨"y = 0", 0, 1, 0⟩ (by simp [axes]))
  simp [HalfPlane.opposite, Line.side, pairing] at hx hy
  exact hd (Prod.ext hx hy)

section Plane

variable (hl : ∀ c ∈ p.constraints, c.coefficients.length = p.variableCount)
  (h2 : p.variableCount = 2)

include hl h2

theorem region_eq_commonPoints : p.region = HalfPlane.commonPoints p.halfPlanes := by
  ext ⟨x, y⟩
  have hrows : (∀ c ∈ p.constraints, c.Holds [x, y]) ↔
      ∀ c ∈ p.constraints, ∀ k ∈ c.relation.sides c.side, k.Contains (x, y) := by
    refine forall₂_congr fun c hc => ?_
    rw [Relation.forall_mem_sides, ← Constraint.lhs_pair ((hl c hc).trans h2)]
    rfl
  have haxes : (0 ≤ x ∧ 0 ≤ y) ↔
      ∀ l ∈ axes, ∀ k ∈ Relation.ge.sides l.side, k.Contains (x, y) := by
    simp only [Relation.forall_mem_sides]
    simp [axes, Line.side, pairing, Relation.Exactly]
  have hfeasible : (x, y) ∈ p.region ↔
      (0 ≤ x ∧ 0 ≤ y) ∧ ∀ c ∈ p.constraints, c.Holds [x, y] :=
    ⟨fun h => ⟨by simpa using h.nonneg, h.holds⟩,
      fun h => ⟨by simp [h2], by simpa using h.1, h.2⟩⟩
  have hcommon : (x, y) ∈ HalfPlane.commonPoints p.halfPlanes ↔
      (∀ l ∈ axes, ∀ k ∈ Relation.ge.sides l.side, k.Contains (x, y)) ∧
        ∀ c ∈ p.constraints, ∀ k ∈ c.relation.sides c.side, k.Contains (x, y) := by
    constructor
    · exact fun h => ⟨fun l hmem k hk => h k (mem_halfPlanes.mpr (Or.inl ⟨l, hmem, hk⟩)),
        fun c hc k hk => h k (mem_halfPlanes.mpr (Or.inr ⟨c, hc, hk⟩))⟩
    · rintro ⟨haxes, hrows⟩ k hk
      rcases mem_halfPlanes.mp hk with ⟨l, hmem, hk⟩ | ⟨c, hc, hk⟩
      · exact haxes l hmem k hk
      · exact hrows c hc k hk
  rw [hfeasible, hcommon, haxes, hrows]

/-- Every boundary is among the lines, but for rows without coefficients. -/
theorem exists_boundaryLine (hh : h ∈ p.halfPlanes) (hne : h.normal ≠ 0) :
    ∃ l ∈ p.boundaryLines 0, l.Bounds h := by
  rcases mem_halfPlanes.mp hh with ⟨l, hmem, hside⟩ | ⟨c, hc, hside⟩
  · exact ⟨l, List.mem_append_right _ hmem, Line.bounds_of_mem_sides hside⟩
  · have hb : (c.line "").Bounds h := Line.bounds_of_mem_sides hside
    obtain ⟨i, hi⟩ := List.mem_iff_getElem?.mp hc
    refine ⟨c.line (rowLabel i), List.mem_append_left _ (List.mem_filterMap.mpr ?_), hb⟩
    refine ⟨(c, i), List.mem_zipIdx_iff_getElem?.mpr hi, if_neg fun hdegenerate => hne ?_⟩
    rw [Constraint.isDegenerate_zero_iff ((hl c hc).trans h2)] at hdegenerate
    rcases hb with rfl | rfl
    · exact hdegenerate
    · exact neg_eq_zero.mpr hdegenerate

omit hl h2 in
/-- Every line is a boundary. -/
theorem exists_bounded_halfPlane (hmem : l ∈ p.boundaryLines 0) :
    ∃ h ∈ p.halfPlanes, l.Bounds h := by
  rw [boundaryLines, List.mem_append, List.mem_filterMap] at hmem
  rcases hmem with ⟨⟨c, i⟩, hc, heq⟩ | haxis
  · obtain ⟨-, rfl⟩ : c.isDegenerate 0 = false ∧ c.line (rowLabel i) = l := by simpa using heq
    obtain ⟨h, hside, hb⟩ := (c.line (rowLabel i)).exists_mem_sides c.relation
    have hmem : c ∈ p.constraints := List.mem_of_getElem? (List.mem_zipIdx_iff_getElem?.mp hc)
    exact ⟨h, mem_halfPlanes.mpr (Or.inr ⟨c, hmem, hside⟩), hb⟩
  · obtain ⟨h, hside, hb⟩ := l.exists_mem_sides .ge
    exact ⟨h, mem_halfPlanes.mpr (Or.inl ⟨l, haxis, hside⟩), hb⟩

/-- The vertices are the crossings that are feasible. -/
theorem isVertex_halfPlanes_iff : HalfPlane.IsVertex p.halfPlanes (q.x, q.y) ↔
    q ∈ (crossings 0 (p.boundaryLines 0)).filterMap (·.point) ∧ p.Feasible q.coords := by
  rw [mem_crossings_iff]
  have hmem : (q.x, q.y) ∈ HalfPlane.commonPoints p.halfPlanes ↔ p.Feasible q.coords := by
    rw [← region_eq_commonPoints hl h2]
    rfl
  constructor
  · rintro ⟨hq, h, hh, k, hk, hth, htk, hdet⟩
    have hnormal : h.normal ≠ 0 ∧ k.normal ≠ 0 := by
      constructor <;> intro hzero <;> simp [determinant, hzero] at hdet
    obtain ⟨l, hlmem, hlb⟩ := exists_boundaryLine hl h2 hh hnormal.1
    obtain ⟨m, hmmem, hmb⟩ := exists_boundaryLine hl h2 hk hnormal.2
    exact ⟨⟨l, hlmem, m, hmmem, hlb.tight_iff.mp hth, hmb.tight_iff.mp htk,
      fun hzero => hdet ((hlb.determinant_eq_zero_iff hmb).mpr hzero)⟩, hmem.mp hq⟩
  · rintro ⟨⟨l, hlmem, m, hmmem, hth, htk, hdet⟩, hq⟩
    obtain ⟨h, hh, hlb⟩ := exists_bounded_halfPlane hlmem
    obtain ⟨k, hk, hmb⟩ := exists_bounded_halfPlane hmmem
    exact ⟨hmem.mpr hq, h, hh, k, hk, hlb.tight_iff.mpr hth, hmb.tight_iff.mpr htk,
      fun hzero => hdet ((hlb.determinant_eq_zero_iff hmb).mp hzero)⟩

/-- The extreme points of the region are the crossings that are feasible. -/
theorem mem_extremePoints_region_iff : (q.x, q.y) ∈ p.region.extremePoints ℚ ↔
    q ∈ (crossings 0 (p.boundaryLines 0)).filterMap (·.point) ∧ p.Feasible q.coords := by
  rw [region_eq_commonPoints hl h2, HalfPlane.mem_extremePoints_iff,
    isVertex_halfPlanes_iff hl h2]

end Plane

end Problem

end LinearProgram

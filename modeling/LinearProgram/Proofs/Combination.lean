import Mathlib.Algebra.BigOperators.Intervals
import Mathlib.Algebra.BigOperators.Field
import Mathlib.Algebra.Order.BigOperators.Group.Finset
import Mathlib.Algebra.Order.Ring.Rat
import Mathlib.Algebra.Field.Rat
import Mathlib.Data.List.GetD
import Mathlib.Tactic.FieldSimp
import Mathlib.Tactic.Linarith
import Mathlib.Tactic.Ring
import LinearProgram.Tableau.Pivot

/-! # Exact linear forms

Over the rationals every operation on scalars is the ordinary one. A list of coefficients is a
linear form on points, which are numbers given by position.
-/

namespace LinearProgram

namespace Scalar

theorem abs_eq (x : ℚ) : Scalar.abs x = |x| := by
  change (if x < 0 then -x else x) = |x|
  split
  · next h => rw [abs_of_neg h]
  · next h => rw [abs_of_nonneg (not_lt.mp h)]

theorem larger_eq (x y : ℚ) : larger x y = max x y := by
  change (if y < x then x else y) = max x y
  split
  · next h => rw [max_eq_left h.le]
  · next h => rw [max_eq_right (not_lt.mp h)]

theorem unsignedZero_eq (x : ℚ) : unsignedZero x = x := add_zero x

theorem one_le_scale (x y : ℚ) : 1 ≤ scale x y := by
  simp only [scale, larger_eq]
  exact le_trans (le_max_left 1 _) (le_max_left _ _)

theorem sum_eq (xs : List ℚ) : sum xs = xs.sum := by
  rw [List.sum_eq_foldl]
  exact congrArg (xs.foldl (· + ·)) neg_zero

end Scalar

/-- What holds of zero and of every value in a list holds at every position. -/
theorem getD_of_forall {P : ℚ → Prop} {l : List ℚ} {j : ℕ} (hzero : P 0)
    (h : ∀ v, l[j]? = some v → P v) : P (l.getD j 0) := by
  rw [List.getD_eq_getElem?_getD]
  cases hget : l[j]? with
  | none => exact hzero
  | some v => exact h v hget

/-- The linear form with these coefficients, at a point. -/
def combine (as : List ℚ) (z : ℕ → ℚ) : ℚ := ∑ j ∈ Finset.range as.length, as.getD j 0 * z j

variable {as bs : List ℚ} {z w : ℕ → ℚ}

@[simp] theorem combine_nil (z : ℕ → ℚ) : combine [] z = 0 := by simp [combine]

theorem combine_cons (a : ℚ) (as : List ℚ) (z : ℕ → ℚ) :
    combine (a :: as) z = a * z 0 + combine as (fun j => z (j + 1)) := by
  simp only [combine, List.length_cons, Finset.sum_range_succ', List.getD_cons_succ,
    List.getD_cons_zero]
  ring

theorem combine_append (as bs : List ℚ) (z : ℕ → ℚ) :
    combine (as ++ bs) z = combine as z + combine bs (fun j => z (as.length + j)) := by
  induction as generalizing z with
  | nil => simp
  | cons a as ih =>
    rw [List.cons_append, combine_cons, combine_cons, ih]
    simp only [List.length_cons, add_right_comm, add_assoc]

theorem combine_congr (h : ∀ j < as.length, z j = w j) : combine as z = combine as w :=
  Finset.sum_congr rfl fun j hj => by rw [h j (Finset.mem_range.mp hj)]

theorem combine_replicate_zero (n : ℕ) (z : ℕ → ℚ) : combine (List.replicate n 0) z = 0 := by
  refine Finset.sum_eq_zero fun j _ => ?_
  rw [List.getD_eq_getElem?_getD, List.getElem?_getD_replicate_default_eq, zero_mul]

theorem dot_eq_combine (as x : List ℚ) :
    Scalar.dot as x = combine as (fun j => x.getD j 0) := by
  rw [Scalar.dot, Scalar.sum_eq]
  induction as generalizing x with
  | nil => simp
  | cons a as ih =>
    cases x with
    | nil => simp [combine]
    | cons b x => simp only [List.zipWith_cons_cons, List.sum_cons, combine_cons, ih,
        List.getD_cons_zero, List.getD_cons_succ]

end LinearProgram

import LinearProgram.Proofs.Combination
import LinearProgram.Proofs.Widths

/-! # Rows as equations

A row states that its linear form takes its solution entry. Without a tolerance the row operations
of a pivot are the subtraction of a multiple and the division by a number.
-/

namespace LinearProgram

namespace Row

def value (r : Row ℚ) (z : ℕ → ℚ) : ℚ := combine r.entries z

/-- The point satisfies the equation. -/
def Holds (r : Row ℚ) (z : ℕ → ℚ) : Prop := r.value z = r.solution

variable {r s : Row ℚ} {z : ℕ → ℚ} {col : ℕ}

theorem value_eq_sum {n : ℕ} (h : r.entries.length = n) (z : ℕ → ℚ) :
    r.value z = ∑ j ∈ Finset.range n, r.entry j * z j := by
  subst h; rfl

theorem dropLast_values (r : Row ℚ) : r.values.dropLast = r.entries := List.dropLast_concat

theorem getLastD_values (r : Row ℚ) : r.values.getLastD 0 = r.solution := by
  rw [values, List.getLastD_concat]

theorem entry_of_length_le (h : r.entries.length ≤ col) : r.entry col = 0 :=
  List.getD_eq_default _ _ h

theorem lt_length_of_entry_ne_zero (h : r.entry col ≠ 0) : col < r.entries.length :=
  not_le.mp fun hle => h (entry_of_length_le hle)

theorem ext_entry (hl : r.entries.length = s.entries.length) (he : ∀ j, r.entry j = s.entry j)
    (hs : r.solution = s.solution) : r = s := by
  obtain ⟨as, a⟩ := r
  obtain ⟨bs, b⟩ := s
  simp only at hl hs
  simp only [entry] at he
  subst hs
  congr 1
  refine List.ext_getElem hl fun j hj hj' => ?_
  simpa only [List.getD_eq_getElem _ _ hj, List.getD_eq_getElem _ _ hj'] using he j

/-- An entry is the value where its column is one and all others are zero. -/
theorem value_unit (r : Row ℚ) (col : ℕ) :
    r.value (fun j => if j = col then 1 else 0) = r.entry col := by
  rw [value_eq_sum rfl]
  simp only [mul_ite, mul_one, mul_zero, Finset.sum_ite_eq', Finset.mem_range]
  split
  · rfl
  · next h => rw [entry_of_length_le (not_lt.mp h)]

theorem entry_map {f : ℚ → ℚ} (hf : f 0 = 0) (r : Row ℚ) (j : ℕ) :
    (r.map f).entry j = f (r.entry j) := by
  conv_lhs => rw [entry, map, ← hf]
  exact List.getD_map ..

theorem entry_subtract (h : r.entries.length = s.entries.length) (f : ℚ) (j : ℕ) :
    (r.subtract f s).entry j = r.entry j - f * s.entry j := by
  by_cases hj : j < r.entries.length
  · have hj' : j < s.entries.length := h ▸ hj
    simp [entry, subtract, zipWith, List.getD_eq_getElem?_getD, hj, hj']
  · have hj' := not_lt.mp hj
    rw [entry_of_length_le ((length_subtract h f).trans_le hj'), entry_of_length_le hj',
      entry_of_length_le (h ▸ hj')]
    ring

theorem solution_subtract (f : ℚ) : (r.subtract f s).solution = r.solution - f * s.solution := rfl

theorem value_subtract (h : r.entries.length = s.entries.length) (f : ℚ) (z : ℕ → ℚ) :
    (r.subtract f s).value z = r.value z - f * s.value z := by
  rw [value_eq_sum (length_subtract h f), value_eq_sum rfl, value_eq_sum h.symm, Finset.mul_sum,
    ← Finset.sum_sub_distrib]
  refine Finset.sum_congr rfl fun j _ => ?_
  rw [entry_subtract h]
  ring

theorem Holds.subtract (h : r.entries.length = s.entries.length) (f : ℚ) (hs : s.Holds z) :
    (r.subtract f s).Holds z ↔ r.Holds z := by
  rw [Holds, Holds, value_subtract h, solution_subtract, hs, sub_left_inj]

theorem entry_set {j : ℕ} (h : j < r.entries.length) (x : ℚ) (k : ℕ) :
    (r.set j x).entry k = if k = j then x else r.entry k := by
  simp only [entry, set, List.getD_eq_getElem?_getD, List.getElem?_set]
  by_cases hk : k = j
  · simp [hk, h]
  · simp [hk, Ne.symm hk]

theorem set_entry (r : Row ℚ) (j : ℕ) : r.set j (r.entry j) = r := by
  by_cases h : j < r.entries.length
  · refine ext_entry (length_set j _) (fun k => ?_) rfl
    rw [entry_set h]
    split
    · next hk => rw [hk]
    · rfl
  · simp [set, List.set_eq_of_length_le (not_lt.mp h)]

theorem snap_zero (x : ℚ) : snap 0 x = x := by
  have h : ¬ Scalar.abs x < 0 * 1e-3 := by
    rw [Scalar.abs_eq]
    have := abs_nonneg x
    linarith
  exact if_neg h

theorem snap_of_zero (tolerance : ℚ) : snap tolerance 0 = 0 := by
  unfold snap
  split <;> rfl

/-- A tolerance up to one does not round a one away. -/
theorem snap_one {tolerance : ℚ} (h : tolerance ≤ 1) : snap tolerance 1 = 1 := by
  refine if_neg ?_
  rw [Scalar.abs_eq, abs_of_pos one_pos, not_lt]
  have hsmall : (1e-3 : ℚ) ≤ 1 := by norm_num
  calc tolerance * 1e-3 ≤ 1 * 1e-3 := mul_le_mul_of_nonneg_right h (by norm_num)
    _ ≤ 1 := by rw [one_mul]; exact hsmall

theorem abs_snap_le (tolerance x : ℚ) : |snap tolerance x| ≤ |x| := by
  unfold snap
  split
  · rw [abs_zero]
    exact abs_nonneg x
  · exact le_rfl

/-- A row is divided by its entry in the pivot column. -/
theorem scaleTo_eq (h : r.entry col ≠ 0) : r.scaleTo col = r.map (· / r.entry col) := by
  have he : (r.map (· / r.entry col)).entry col = 1 := by
    rw [entry_map (f := (· / r.entry col)) (zero_div _), div_self h]
  rw [scaleTo, ← he, set_entry]

/-- Without a tolerance, clearing the pivot column subtracts a multiple of the pivot row. -/
theorem eliminate_zero (h : r.entries.length = s.entries.length) (hs : s.entry col = 1) :
    r.eliminate 0 s col = r.subtract (r.entry col) s := by
  have hsnap : (r.subtract (r.entry col) s).map (snap 0) = r.subtract (r.entry col) s :=
    ext_entry (length_map ..) (fun j => by rw [entry_map (snap_zero 0), snap_zero]) (snap_zero _)
  have hset : (r.subtract (r.entry col) s).entry col = 0 := by
    rw [entry_subtract h, hs, mul_one, sub_self]
  rw [eliminate, hsnap]
  split
  · next hz =>
    have hz : r.entry col = 0 := by simpa using hz
    refine ext_entry (length_subtract h _).symm (fun j => ?_) ?_
    · rw [entry_subtract h, hz]; ring
    · rw [solution_subtract, hz]; ring
  · rw [← hset, set_entry]

theorem entry_eliminate (h : r.entries.length = s.entries.length) (tolerance : ℚ)
    (hne : r.entry col ≠ 0) (j : ℕ) : (r.eliminate tolerance s col).entry j =
      if j = col then 0 else snap tolerance (r.entry j - r.entry col * s.entry j) := by
  have hlt : col < ((r.subtract (r.entry col) s).map (snap tolerance)).entries.length := by
    rw [length_map, length_subtract h]
    exact lt_length_of_entry_ne_zero hne
  rw [eliminate, if_neg (beq_iff_eq.not.mpr hne), entry_set hlt,
    entry_map (snap_of_zero tolerance), entry_subtract h]

theorem eliminate_of_entry_eq_zero (tolerance : ℚ) (h : r.entry col = 0) :
    r.eliminate tolerance s col = r :=
  if_pos (beq_iff_eq.mpr h)

theorem entry_eliminate_self (h : r.entries.length = s.entries.length) (tolerance : ℚ)
    (col : ℕ) : (r.eliminate tolerance s col).entry col = 0 := by
  by_cases hz : r.entry col = 0
  · rw [eliminate_of_entry_eq_zero tolerance hz, hz]
  · rw [entry_eliminate h tolerance hz, if_pos rfl]

/-- Where the pivot row has no entry, an entry stays or is rounded. -/
theorem entry_eliminate_of_zero (h : r.entries.length = s.entries.length) (tolerance : ℚ)
    {j : ℕ} (hj : s.entry j = 0) (hne : j ≠ col) :
    (r.eliminate tolerance s col).entry j = r.entry j ∨
      (r.eliminate tolerance s col).entry j = snap tolerance (r.entry j) := by
  by_cases hz : r.entry col = 0
  · rw [eliminate_of_entry_eq_zero tolerance hz]
    exact Or.inl rfl
  · rw [entry_eliminate h tolerance hz, if_neg hne, hj, mul_zero, sub_zero]
    exact Or.inr rfl

end Row

end LinearProgram

import LinearProgram.Proofs.Digits
import LinearProgram.Proofs.VariableOrder
import Mathlib.Data.String.Basic

/-! # Numbered names

Names that differ in the number behind a common stem are ordered by it as long as the numbers fit
into 64 bits. A number that does not fit counts as none, and none comes first.
-/

namespace LinearProgram

namespace Digits

variable {ds es : List Char} {c : Char} {a b u v unit : ℕ}

theorem value_cons (c : Char) (ds : List Char) :
    value (c :: ds) = (c.toNat - 48) * 10 ^ ds.length + value ds := by
  have h := value_append [c] ds
  rw [List.singleton_append] at h
  rw [h]
  change (10 * 0 + (c.toNat - 48)) * _ + _ = _
  rw [Nat.mul_zero, Nat.zero_add]

theorem code_of_isDigit (h : c.isDigit = true) : 48 ≤ c.toNat := by
  simp only [Char.isDigit, Bool.and_eq_true, decide_eq_true_eq] at h
  exact h.1

/-- Multiples of a unit with remainders are compared by the multiples first. -/
theorem mul_add_lt_iff (hu : u < unit) (hv : v < unit) :
    a * unit + u < b * unit + v ↔ a < b ∨ a = b ∧ u < v := by
  rcases lt_trichotomy a b with h | rfl | h
  · have hstep := Nat.mul_le_mul_right unit (Nat.succ_le_of_lt h)
    rw [Nat.succ_mul] at hstep
    exact iff_of_true (by omega) (Or.inl h)
  · simp
  · have hstep := Nat.mul_le_mul_right unit (Nat.succ_le_of_lt h)
    rw [Nat.succ_mul] at hstep
    exact iff_of_false (by omega) (by omega)

/-- Runs of one length are in the order of their values. -/
theorem lt_iff_value_lt (hds : ∀ c ∈ ds, c.isDigit = true) (hes : ∀ c ∈ es, c.isDigit = true)
    (hlength : ds.length = es.length) : ds < es ↔ value ds < value es := by
  induction ds generalizing es with
  | nil =>
    obtain rfl := List.length_eq_zero_iff.mp hlength.symm
    simp
  | cons c ds ih =>
    obtain ⟨d, es, rfl⟩ := List.exists_cons_of_length_eq_add_one hlength.symm
    obtain ⟨hc, hds⟩ := List.forall_mem_cons.mp hds
    obtain ⟨hd, hes⟩ := List.forall_mem_cons.mp hes
    have hlength : ds.length = es.length := Nat.succ.inj hlength
    have hc := code_of_isDigit hc
    have hd := code_of_isDigit hd
    have hlt : c < d ↔ c.toNat - 48 < d.toNat - 48 := by
      change c.toNat < d.toNat ↔ _
      omega
    have heq : c = d ↔ c.toNat - 48 = d.toNat - 48 := by
      rw [← Char.toNat_inj]
      omega
    rw [List.cons_lt_cons_iff, ih hds hes hlength, value_cons, value_cons, hlength,
      mul_add_lt_iff (hlength ▸ value_lt hds) (value_lt hes), hlt, heq]

end Digits

namespace VariableOrder

/-- A number of 64 bits. -/
def Fits (digits : List Char) : Prop := Digits.value digits < wordBound

instance (digits : List Char) : Decidable (Fits digits) := inferInstanceAs (Decidable (_ < _))

/-- The name with these digits behind its stem. -/
def numbered (front digits : List Char) : String := String.ofList (front ++ digits)

/-- By number, and names with the same number as they are written. -/
def compareByNumber (front ds es : List Char) : Ordering :=
  (Ord.compare (Digits.value ds) (Digits.value es)).then
    (Ord.compare (numbered front ds) (numbered front es))

variable {front ds es : List Char}

theorem number?_of_fits (hne : ds ≠ []) (h : Fits ds) : number? ds = some (Digits.value ds) := by
  have hlt : ¬ wordBound ≤ Digits.value ds := Nat.not_le.mpr h
  simp [number?, hne, hlt]

theorem number?_of_not_fits (h : ¬ Fits ds) : number? ds = none := by
  have hle : wordBound ≤ Digits.value ds := Nat.not_lt.mp h
  simp [number?, hle]

theorem value_lt_of_fits (hds : Fits ds) (hes : ¬ Fits es) :
    Digits.value ds < Digits.value es :=
  Nat.lt_of_lt_of_le hds (Nat.not_lt.mp hes)

section Split

variable (hfront : ∀ c ∈ front.getLast?, c.isDigit = false) (hds : ∀ c ∈ ds, c.isDigit = true)

include hfront hds

theorem stem_numbered : stem (numbered front ds).toList = front := by
  rw [stem, numbered, String.toList_ofList, List.reverse_append,
    Digits.dropWhile_append (by simpa using hds) (by simpa using hfront), List.reverse_reverse]

theorem suffix_numbered : suffix (numbered front ds).toList = ds := by
  rw [suffix, numbered, String.toList_ofList, List.reverse_append,
    Digits.takeWhile_append (by simpa using hds) (by simpa using hfront), List.reverse_reverse]

/-- A common stem does not decide. -/
theorem compare_numbered_eq (hes : ∀ c ∈ es, c.isDigit = true) :
    compare (numbered front ds) (numbered front es) =
      (Ord.compare (number? ds) (number? es)).then
        (Ord.compare (numbered front ds) (numbered front es)) := by
  have hself : Ord.compare (String.ofList front) (String.ofList front) = .eq :=
    Std.ReflCmp.compare_self
  rw [compare, stem_numbered hfront hds, stem_numbered hfront hes, suffix_numbered hfront hds,
    suffix_numbered hfront hes, hself]
  rfl

end Split

theorem numbered_lt_iff : numbered front ds < numbered front es ↔ ds < es := by
  rw [String.lt_iff_toList_lt, numbered, numbered, String.toList_ofList, String.toList_ofList]
  induction front with
  | nil => exact Iff.rfl
  | cons c front ih => simpa [List.cons_lt_cons_iff] using ih

/-- Behind a common stem, digits of one length are in the order of their values as they are
written. -/
theorem compare_numbered_of_length_eq (hds : ∀ c ∈ ds, c.isDigit = true)
    (hes : ∀ c ∈ es, c.isDigit = true) (hlength : ds.length = es.length) :
    Ord.compare (numbered front ds) (numbered front es) =
      Ord.compare (Digits.value ds) (Digits.value es) := by
  have hlt := (@numbered_lt_iff front _ _).trans (Digits.lt_iff_value_lt hds hes hlength)
  have hgt := (@numbered_lt_iff front _ _).trans (Digits.lt_iff_value_lt hes hds hlength.symm)
  rcases lt_trichotomy (Digits.value ds) (Digits.value es) with h | h | h
  · rw [compare_lt_iff_lt.mpr h, compare_lt_iff_lt.mpr (hlt.mpr h)]
  · have hle : numbered front ds ≤ numbered front es := not_lt.mp fun hg => (hgt.mp hg).ne' h
    have hge : numbered front es ≤ numbered front ds := not_lt.mp fun hl => (hlt.mp hl).ne h
    rw [compare_eq_iff_eq.mpr h, compare_eq_iff_eq.mpr (le_antisymm hle hge)]
  · rw [compare_gt_iff_gt.mpr h, compare_gt_iff_gt.mpr (hgt.mpr h)]

/-- Names with a common stem are ordered by the numbers behind it if both fit into 64 bits, leading
zeros or not. If neither fits, they are ordered as they are written, which is by number if the
numbers are equally long. If one of them fits, the order is the wrong way round. -/
theorem compare_numbered (hfront : ∀ c ∈ front.getLast?, c.isDigit = false)
    (hds : ∀ c ∈ ds, c.isDigit = true) (hes : ∀ c ∈ es, c.isDigit = true) (hne : ds ≠ [])
    (hne' : es ≠ []) :
    (Fits ds → Fits es →
      compare (numbered front ds) (numbered front es) = compareByNumber front ds es) ∧
    (¬ Fits ds → ¬ Fits es →
      compare (numbered front ds) (numbered front es) =
        Ord.compare (numbered front ds) (numbered front es) ∧
      (ds.length = es.length →
        compare (numbered front ds) (numbered front es) = compareByNumber front ds es)) ∧
    (¬ (Fits ds ↔ Fits es) → compareByNumber front ds es ≠ .eq ∧
      compare (numbered front ds) (numbered front es) = (compareByNumber front ds es).swap) := by
  rw [compare_numbered_eq hfront hds hes]
  refine ⟨fun h h' => ?_, fun h h' => ?_, fun hone => ?_⟩
  · rw [number?_of_fits hne h, number?_of_fits hne' h', compareByNumber]
    rfl
  · rw [number?_of_not_fits h, number?_of_not_fits h']
    refine ⟨rfl, fun hlength => ?_⟩
    rw [compareByNumber, compare_numbered_of_length_eq hds hes hlength, Ordering.then_self]
    rfl
  · by_cases h : Fits ds
    · have h' : ¬ Fits es := fun h' => hone (iff_of_true h h')
      rw [compareByNumber, compare_lt_iff_lt.mpr (value_lt_of_fits h h'), number?_of_fits hne h,
        number?_of_not_fits h']
      exact ⟨nofun, rfl⟩
    · have h' : Fits es := not_not.mp fun h' => hone (iff_of_false h h')
      rw [compareByNumber, compare_gt_iff_gt.mpr (value_lt_of_fits h' h), number?_of_not_fits h,
        number?_of_fits hne' h']
      exact ⟨nofun, rfl⟩

/-- The least number that does not fit. -/
def tooLarge : List Char := "18446744073709551616".toList

theorem compare_numbered_tooLarge :
    compare "x2" "x010" = compareByNumber ['x'] ['2'] ['0', '1', '0'] ∧
    compare "x2" "x010" = .lt ∧
    compare "x1" (numbered ['x'] tooLarge) = (compareByNumber ['x'] ['1'] tooLarge).swap ∧
    compare "x1" (numbered ['x'] tooLarge) = .gt := by
  have hnumbers : Fits ['2'] ∧ Fits ['0', '1', '0'] ∧ Fits ['1'] ∧ ¬ Fits tooLarge := by
    decide +kernel
  obtain ⟨h2, h10, h1, hlarge⟩ := hnumbers
  have hfront : ∀ c ∈ ['x'].getLast?, c.isDigit = false := by
    rintro _ ⟨⟩
    rfl
  obtain ⟨hboth, -, -⟩ := @compare_numbered ['x'] ['2'] ['0', '1', '0'] hfront
    (List.all_eq_true.mp rfl) (List.all_eq_true.mp rfl) (by decide) (by decide)
  obtain ⟨-, -, hone⟩ := @compare_numbered ['x'] ['1'] tooLarge hfront
    (List.all_eq_true.mp rfl) (List.all_eq_true.mp (by decide +kernel)) (by decide)
    (by decide +kernel)
  exact ⟨hboth h2 h10, by decide +kernel, (hone fun h => hlarge (h.mp h1)).2, by decide +kernel⟩

/-- The order is not that of the numbers, neither if one of them does not fit nor if both do not. -/
theorem compare_ne_compareByNumber :
    (compare (numbered ['x'] ['1']) (numbered ['x'] tooLarge) = .gt ∧
      compareByNumber ['x'] ['1'] tooLarge = .lt) ∧
    compare (numbered ['x'] "99999999999999999999".toList)
      (numbered ['x'] "100000000000000000000".toList) = .gt ∧
    compareByNumber ['x'] "99999999999999999999".toList "100000000000000000000".toList = .lt := by
  decide +kernel

end VariableOrder

end LinearProgram

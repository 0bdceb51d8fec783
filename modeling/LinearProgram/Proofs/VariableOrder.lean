import LinearProgram.Language.VariableOrder
import Mathlib.Data.List.Basic
import Mathlib.Data.List.Destutter

/-! # Sorted names

The order of variables is linear: only equal names compare equal. So sorting keeps every name, and
keeps it once.
-/

namespace LinearProgram

namespace VariableOrder

theorem compare_eq_compareLex : compare =
    compareLex (compareOn fun name => String.ofList (stem name.toList))
      (compareLex (compareOn fun name => number? (suffix name.toList)) Ord.compare) := rfl

instance : Std.TransCmp compare := by
  rw [compare_eq_compareLex]
  infer_instance

variable {a b : String} {names : List String}

theorem compare_eq_iff : compare a b = .eq ↔ a = b := by
  constructor
  · intro h
    simp only [compare, Ordering.then_eq_eq] at h
    exact Std.LawfulEqCmp.eq_of_compare h.2.2
  · rintro rfl
    exact Std.ReflCmp.compare_self

theorem mem_insert : b ∈ insert a names ↔ b = a ∨ b ∈ names := by
  induction names with
  | nil => simp [insert]
  | cons other rest ih =>
    rw [insert]
    split
    · exact List.mem_cons
    · next h =>
      rw [compare_eq_iff] at h
      subst h
      simp
    · rw [List.mem_cons, ih, List.mem_cons, or_left_comm]

theorem mem_sort : a ∈ sort names ↔ a ∈ names := by
  induction names with
  | nil => exact Iff.rfl
  | cons other rest ih => rw [sort, List.foldr_cons, mem_insert, ← sort, ih, List.mem_cons]

theorem pairwise_insert (name : String) (h : names.Pairwise fun a b => compare a b = .lt) :
    (insert name names).Pairwise fun a b => compare a b = .lt := by
  induction names with
  | nil => exact List.pairwise_singleton _ _
  | cons other rest ih =>
    obtain ⟨hother, hrest⟩ := List.pairwise_cons.mp h
    rw [insert]
    split
    · next hlt =>
      refine List.pairwise_cons.mpr ⟨?_, h⟩
      intro b hb
      rcases List.mem_cons.mp hb with rfl | hb
      · exact hlt
      · exact Std.TransCmp.lt_trans hlt (hother b hb)
    · exact h
    · next hgt =>
      refine List.pairwise_cons.mpr ⟨?_, ih hrest⟩
      intro b hb
      rcases mem_insert.mp hb with rfl | hb
      · exact Std.OrientedCmp.gt_iff_lt.mp hgt
      · exact hother b hb

theorem pairwise_sort (names : List String) :
    (sort names).Pairwise fun a b => compare a b = .lt := by
  induction names with
  | nil => exact .nil
  | cons name names ih => exact pairwise_insert name ih

theorem nodup_sort (names : List String) : (sort names).Nodup := by
  refine (pairwise_sort names).imp ?_
  rintro a b h rfl
  rw [compare_eq_iff.mpr rfl] at h
  cases h

/-- Names in order are determined by which they are. -/
theorem eq_of_mem_iff {names' : List String} (h : names.Pairwise fun a b => compare a b = .lt)
    (h' : names'.Pairwise fun a b => compare a b = .lt) (hmem : ∀ a, a ∈ names ↔ a ∈ names') :
    names = names' := by
  have hne {a b : String} (hlt : compare a b = .lt) : a ≠ b := by
    rintro rfl
    rw [compare_eq_iff.mpr rfl] at hlt
    cases hlt
  have hperm : names.Perm names' :=
    (List.perm_ext_iff_of_nodup (h.imp hne) (h'.imp hne)).mpr hmem
  refine hperm.eq_of_pairwise (fun a b _ _ hab hba => ?_) h h'
  rw [Std.OrientedCmp.gt_of_lt hab] at hba
  cases hba

theorem sort_eq_of_mem_iff {names' : List String} (h : ∀ a, a ∈ names ↔ a ∈ names') :
    sort names = sort names' :=
  eq_of_mem_iff (pairwise_sort names) (pairwise_sort names') fun a => by
    rw [mem_sort, mem_sort, h]

theorem isLE_total (a b : String) : ((compare a b).isLE || (compare b a).isLE) = true := by
  by_cases h : (compare a b).isLE = true
  · rw [h, Bool.true_or]
  · rw [Std.OrientedCmp.lt_of_not_isLE h]
    exact Bool.or_true _

instance : Std.Antisymm fun a b => (compare a b).isLE = true :=
  ⟨fun _ _ hab hba => compare_eq_iff.mp (Std.OrientedCmp.isLE_antisymm hab hba)⟩

/-- In a sorted list equal names are neighbors. So it is enough to compare neighbors to keep every
name once. -/
theorem sort_eq_destutter_mergeSort (names : List String) : sort names =
    (names.mergeSort fun a b => (compare a b).isLE).destutter (· ≠ ·) := by
  have hsorted : (names.mergeSort fun a b => (compare a b).isLE).Pairwise
      fun a b => (compare a b).isLE = true :=
    List.pairwise_mergeSort (fun _ _ _ => Std.TransCmp.isLE_trans) isLE_total names
  rw [hsorted.destutter_eq_dedup]
  refine eq_of_mem_iff (pairwise_sort names) ?_ fun a => ?_
  · refine ((hsorted.sublist (List.dedup_sublist _)).and (List.nodup_dedup _)).imp ?_
    rintro a b ⟨hle, hne⟩
    exact (Ordering.isLE_iff_eq_lt_or_eq_eq.mp hle).resolve_right fun h => hne (compare_eq_iff.mp h)
  · rw [mem_sort, List.mem_dedup, List.mem_mergeSort]

end VariableOrder

end LinearProgram

import LinearProgram.Number.Digits
import LinearProgram.Number.Fixed
import Mathlib.Algebra.Group.Nat.Defs
import Mathlib.Data.List.TakeWhile

/-! # Runs of digits

The decimal digits of a number are digits, the first of them is not a zero unless the number is
zero, and their value is the number. A run of digits ends where something else follows.
-/

namespace LinearProgram

namespace Text

theorem toList_pushn (c : Char) (k : ℕ) (s : String) :
    (s.pushn c k).toList = s.toList ++ List.replicate k c := by
  rw [String.pushn_eq_repeat_push]
  induction k with
  | zero => exact (List.append_nil _).symm
  | succ k ih =>
    rw [Nat.repeat, String.toList_push, ih, List.append_assoc, List.replicate_succ']

theorem toList_zeroPadded (width : ℕ) (ds : List Char) :
    (zeroPadded width ds).toList = List.replicate (width - ds.length) '0' ++ ds := by
  rw [zeroPadded, String.toList_append, toList_pushn, String.toList_ofList (l := ds)]
  rfl

end Text

namespace Digits

theorem isDigit_toDigits (n : ℕ) : ∀ c ∈ Nat.toDigits 10 n, c.isDigit = true :=
  fun _ hc => Nat.isDigit_of_mem_toDigits (by decide) (by decide) hc

theorem value_toDigits (n : ℕ) : value (Nat.toDigits 10 n) = n := Nat.ofDigitChars_ten_toDigits

theorem value_append (ds es : List Char) :
    value (ds ++ es) = value ds * 10 ^ es.length + value es := by
  change Nat.ofDigitChars 10 (ds ++ es) 0 = _
  rw [Nat.ofDigitChars_append, Nat.ofDigitChars_eq_ofDigitChars_zero, Nat.mul_comm]
  rfl

theorem value_zeros (k : ℕ) : value (List.replicate k '0') = 0 := Nat.ofDigitChars_replicate_zero

theorem value_singleton_le {c : Char} (hc : c.isDigit = true) : value [c] ≤ 9 := by
  have hcode : c.toNat ≤ 57 := by
    simp only [Char.isDigit, Bool.and_eq_true, decide_eq_true_eq] at hc
    exact hc.2
  change 10 * 0 + (c.toNat - 48) ≤ 9
  omega

theorem value_lt {ds : List Char} (hds : ∀ c ∈ ds, c.isDigit = true) :
    value ds < 10 ^ ds.length := by
  induction ds with
  | nil => exact Nat.one_pos
  | cons c ds ih =>
    obtain ⟨hc, hds⟩ := List.forall_mem_cons.mp hds
    have hfirst := Nat.mul_le_mul_right (10 ^ ds.length) (value_singleton_le hc)
    have hrest := ih hds
    rw [← List.singleton_append, value_append, List.length_append, Nat.pow_add]
    simp only [List.length_singleton]
    omega

theorem pow_length_toDigits {n : ℕ} (hn : 0 < n) :
    10 ^ ((Nat.toDigits 10 n).length - 1) ≤ n ∧ n < 10 ^ (Nat.toDigits 10 n).length := by
  have hpos := @Nat.length_toDigits_pos 10 n
  refine ⟨?_, (Nat.length_toDigits_le_iff (by decide) hpos).mp (Nat.le_refl _)⟩
  refine Nat.le_of_not_lt fun hlt => ?_
  rcases Nat.eq_zero_or_pos ((Nat.toDigits 10 n).length - 1) with hone | hmore
  · rw [hone] at hlt
    exact Nat.not_lt.mpr hn hlt
  · have hle := (Nat.length_toDigits_le_iff (by decide) hmore).mpr hlt
    omega

theorem digitChar_ne_zero {n : ℕ} (hpos : 0 < n) (hlt : n < 10) : n.digitChar ≠ '0' := by
  have hall : ∀ k : Fin 10, 0 < k.val → k.val.digitChar ≠ '0' := by decide
  exact hall ⟨n, hlt⟩ hpos

theorem head?_toDigits {n : ℕ} (h : n ≠ 0) : (Nat.toDigits 10 n).head? ≠ some '0' := by
  induction n using Nat.strongRecOn with
  | ind n ih =>
    rw [Nat.toDigits_eq_if (by decide)]
    split
    · next hlt =>
      intro heq
      exact digitChar_ne_zero (Nat.pos_of_ne_zero h) hlt (Option.some.inj heq)
    · next hge =>
      have hrest := ih (n / 10) (by omega) (by omega)
      obtain ⟨d, ds, hds⟩ := List.exists_cons_of_ne_nil (@Nat.toDigits_ne_nil (n / 10) 10)
      rw [hds] at hrest ⊢
      exact hrest

section Runs

variable {ds rest : List Char} (hds : ∀ c ∈ ds, c.isDigit = true)
  (hrest : ∀ c ∈ rest.head?, c.isDigit = false)

include hds hrest

theorem takeWhile_append : (ds ++ rest).takeWhile Char.isDigit = ds := by
  rw [List.takeWhile_append_of_pos hds]
  cases rest with
  | nil => exact List.append_nil ds
  | cons c rest => rw [List.takeWhile_cons_of_neg (by simp [hrest c rfl]), List.append_nil]

theorem dropWhile_append : (ds ++ rest).dropWhile Char.isDigit = rest := by
  rw [List.dropWhile_append_of_pos hds]
  cases rest with
  | nil => rfl
  | cons c rest => rw [List.dropWhile_cons_of_neg (by simp [hrest c rfl])]

end Runs

end Digits

theorem toString_injective : Function.Injective (toString : ℕ → String) := by
  intro i k h
  have hdigits : Nat.toDigits 10 i = Nat.toDigits 10 k := by
    apply String.ofList_injective
    rw [← Nat.repr_eq_ofList_toDigits, ← Nat.repr_eq_ofList_toDigits]
    exact h
  rw [← Digits.value_toDigits i, hdigits, Digits.value_toDigits]

end LinearProgram

import Mathlib.Algebra.Order.Ring.Rat
import Mathlib.Data.List.Induction
import Mathlib.Order.WithBot
import Mathlib.Tactic.Linarith

/-! # Scans with a tolerance

A scan keeps the best candidate so far and moves on to the next one if that is better by more than a
tolerance. Being better by so much is not transitive: in a chain of near ties the scan stays where
it is while the scores drift away. Still no candidate that was passed over is better than the last
one kept by more than the tolerance, and all before that one are worse.
-/

namespace LinearProgram

namespace Scan

variable {γ : Type} {step : Option γ → γ → Option γ}

section Finding

variable (hkeep : ∀ b x, (step (some b) x).isSome)

include hkeep

theorem isSome_foldl {best : Option γ} (h : best.isSome) (l : List γ) :
    (l.foldl step best).isSome := by
  induction l generalizing best with
  | nil => exact h
  | cons x l ih =>
    obtain ⟨b, rfl⟩ := Option.isSome_iff_exists.mp h
    exact ih (hkeep b x)

/-- A scan finds something exactly when it would start with one of the candidates. -/
theorem foldl_eq_none_iff {l : List γ} :
    l.foldl step none = none ↔ ∀ x ∈ l, step none x = none := by
  induction l with
  | nil => simp
  | cons x l ih =>
    rw [List.foldl_cons, List.forall_mem_cons]
    cases hx : step none x with
    | none => simpa using ih
    | some b =>
      have hsome : (l.foldl step (some b)).isSome := isSome_foldl hkeep rfl l
      simp [Option.isSome_iff_ne_none.mp hsome]

end Finding

/-- A step of a scan that starts with a score above a threshold. -/
structure Moves (tolerance : ℚ) (threshold : WithBot ℚ) (score : γ → ℚ)
    (step : Option γ → γ → Option γ) : Prop where
  start : ∀ x, step none x = if threshold < score x then some x else none
  move : ∀ b x, step (some b) x = if score b + tolerance < score x then some x else some b

/-- A candidate better than all before it, such that none is better by more than the tolerance. -/
structure Leads (tolerance : ℚ) (score : γ → ℚ) (l : List γ) (b : γ) : Prop where
  exists_append : ∃ before after, l = before ++ b :: after ∧ ∀ x ∈ before, score x < score b
  le : ∀ x ∈ l, score x ≤ score b + tolerance

variable {tolerance : ℚ} {threshold : WithBot ℚ} {score : γ → ℚ} {l : List γ} {b x : γ}

namespace Leads

theorem mem (h : Leads tolerance score l b) : b ∈ l := by
  obtain ⟨before, after, rfl, -⟩ := h.exists_append
  exact List.mem_append_cons_self

theorem concat_of_lt (h0 : 0 ≤ tolerance) (hlt : ∀ y ∈ l, score y < score x) :
    Leads tolerance score (l ++ [x]) x := by
  refine ⟨⟨l, [], rfl, hlt⟩, ?_⟩
  rw [List.forall_mem_append, List.forall_mem_singleton]
  exact ⟨fun y hy => by linarith [hlt y hy], by linarith⟩

theorem concat_of_le (h : Leads tolerance score l b) (hle : score x ≤ score b + tolerance) :
    Leads tolerance score (l ++ [x]) b := by
  obtain ⟨before, after, rfl, hbefore⟩ := h.exists_append
  refine ⟨⟨before, after ++ [x], by simp, hbefore⟩, ?_⟩
  rw [List.forall_mem_append, List.forall_mem_singleton]
  exact ⟨h.le, hle⟩

/-- In a list numbered upwards, what has a lower number than the leader scores less. -/
theorem lt_of_index_lt {index : γ → ℕ} (h : Leads tolerance score l b)
    (hl : l.Pairwise fun x y => index x < index y) (hx : x ∈ l) (hlt : index x < index b) :
    score x < score b := by
  obtain ⟨before, after, rfl, hbefore⟩ := h.exists_append
  rcases List.mem_append.mp hx with hx | hx
  · exact hbefore x hx
  · rcases List.mem_cons.mp hx with rfl | hx
    · exact absurd hlt (lt_irrefl _)
    · have hafter := List.rel_of_pairwise_cons (List.pairwise_append.mp hl).2.1 hx
      exact absurd hlt hafter.not_gt

end Leads

/-- The invariant of a scan: so far nothing exceeds the threshold, or what is kept leads and
exceeds it. -/
theorem Moves.foldl_cases (hstep : Moves tolerance threshold score step) (h0 : 0 ≤ tolerance)
    (l : List γ) :
    (l.foldl step none = none ∧ ∀ x ∈ l, score x ≤ threshold) ∨
      ∃ b, l.foldl step none = some b ∧ threshold < score b ∧ Leads tolerance score l b := by
  -- The last candidate meets what the scan has kept of all others.
  induction l using List.reverseRecOn with
  | nil => exact Or.inl ⟨rfl, List.forall_mem_nil _⟩
  | append_singleton l x ih =>
    rw [List.foldl_append, List.foldl_cons, List.foldl_nil]
    obtain ⟨hnone, hall⟩ | ⟨b, hb, hgt, hleads⟩ := ih
    · rw [hnone, hstep.start]
      split
      · next hx =>
        have hlt : ∀ y ∈ l, score y < score x := fun y hy =>
          WithBot.coe_lt_coe.mp ((hall y hy).trans_lt hx)
        exact Or.inr ⟨x, rfl, hx, .concat_of_lt h0 hlt⟩
      · next hx =>
        refine Or.inl ⟨rfl, ?_⟩
        rw [List.forall_mem_append, List.forall_mem_singleton]
        exact ⟨hall, not_lt.mp hx⟩
    · rw [hb, hstep.move]
      split
      · next hx =>
        have hlt : ∀ y ∈ l, score y < score x := fun y hy => (hleads.le y hy).trans_lt hx
        have hbx : (score b : WithBot ℚ) < score x := WithBot.coe_lt_coe.mpr (by linarith)
        exact Or.inr ⟨x, rfl, hgt.trans hbx, .concat_of_lt h0 hlt⟩
      · next hx => exact Or.inr ⟨b, rfl, hgt, hleads.concat_of_le (not_lt.mp hx)⟩

theorem Moves.leads (hstep : Moves tolerance threshold score step) (h0 : 0 ≤ tolerance)
    (h : l.foldl step none = some b) : threshold < score b ∧ Leads tolerance score l b := by
  obtain ⟨hnone, -⟩ | ⟨b', hb', hgt, hleads⟩ := hstep.foldl_cases h0 l
  · cases hnone.symm.trans h
  · obtain rfl := Option.some.inj (hb'.symm.trans h)
    exact ⟨hgt, hleads⟩

end Scan

end LinearProgram

import Mathlib.Data.List.Infix

/-! # Where an entry of a list stands

An entry of a list is what comes last in one of its prefixes. If one part of a list does not have
the entry, this prefix ends in the other part.
-/

namespace LinearProgram

variable {β : Type} {before l m : List β} {d : β}

theorem exists_append_of_not_mem (h : before ++ [d] <+: l ++ m) (hl : d ∉ l) :
    ∃ inner, before = l ++ inner ∧ inner ++ [d] <+: m := by
  have hle : l <+: before := by
    rcases List.prefix_or_prefix_of_prefix h (List.prefix_append l m) with hleft | hright
    · exact absurd (hleft.subset (by simp)) hl
    · rcases List.prefix_concat_iff.mp hright with rfl | hle
      · simp at hl
      · exact hle
  obtain ⟨inner, rfl⟩ := hle
  rw [List.append_assoc, List.prefix_append_right_inj] at h
  exact ⟨inner, rfl, h⟩

theorem stands_left_of_not_mem (h : before ++ [d] <+: l ++ m) (hm : d ∉ m) :
    before ++ [d] <+: l := by
  rcases List.prefix_or_prefix_of_prefix h (List.prefix_append l m) with hleft | hright
  · exact hleft
  · rcases List.prefix_concat_iff.mp hright with rfl | ⟨inner, rfl⟩
    · exact List.prefix_rfl
    · rw [List.append_assoc, List.prefix_append_right_inj] at h
      exact absurd (h.subset (by simp)) hm

end LinearProgram

import LinearProgram.Proofs.Grammar

/-! # Layout among the tokens

Where a line ends, layout may be put in or taken out: the statements stay the same. A comment ends
its line anyhow, so all comments may be taken out.
-/

namespace LinearProgram

namespace Grammar

variable {α : Type} [Scalar α] {t : Token} {before after ts us vs : List Token}
  {cs : List (ConstraintStatement α)} {o : ObjectiveStatement α} {ss : List (Statement α)}

theorem not_isLayout_of_mem_statementKinds (h : t.kind ∈ statementKinds) : ¬ IsLayout t := by
  rintro (ht | ht) <;> rw [ht] at h <;> revert h <;> decide

/-- Two ways to take a list apart: the statement in front stands before the second cut, or one of
its tokens begins what is behind that cut. -/
theorem exists_of_append_eq_append (h : ts ++ us = before ++ after) :
    (∃ rest, before = ts ++ rest ∧ us = rest ++ after) ∨
      ∃ t rest, ts = before ++ t :: rest ∧ after = t :: (rest ++ us) := by
  obtain ⟨rest, rfl, hrest⟩ | ⟨rest, rfl, rfl⟩ := List.append_eq_append_iff.mp h
  · exact .inl ⟨rest, rfl, hrest⟩
  · cases rest with
    | nil => exact .inl ⟨[], by simp, rfl⟩
    | cons t rest => exact .inr ⟨t, rest, rfl, rfl⟩

/-- A statement in front of a place where a line ends does not reach beyond it. -/
theorem exists_of_endsLine (hts : ∀ t ∈ ts, t.kind ∈ statementKinds) (hafter : EndsLine after)
    (h : ts ++ us = before ++ after) : ∃ rest, before = ts ++ rest ∧ us = rest ++ after := by
  obtain hrest | ⟨t, rest, rfl, rfl⟩ := exists_of_append_eq_append h
  · exact hrest
  · exact absurd hafter (not_isLayout_of_mem_statementKinds (hts t (by simp)))

theorem Derives.of_cons (h : Derives (t :: ts) ss) (ht : IsLayout t) : Derives ts ss := by
  generalize hus : t :: ts = us at h
  cases h with
  | empty => cases hus
  | layout _ hss =>
    obtain ⟨-, rfl⟩ := List.cons.inj hus
    exact hss
  | objective hline =>
    obtain ⟨u, us, sense, rfl, -⟩ := hline.exists_cons
    obtain ⟨rfl, -⟩ := List.cons.inj hus
    exact absurd ht (not_isLayout_of_mem_statementKinds (hline.kind_mem t (.head us)))
  | closedObjective hline =>
    obtain ⟨u, us, sense, rfl, -⟩ := hline.exists_cons
    obtain ⟨rfl, -⟩ := List.cons.inj hus
    exact absurd ht (not_isLayout_of_mem_statementKinds (hline.kind_mem t (.head us)))
  | constraints hline =>
    obtain ⟨u, us, rfl, -⟩ := hline.exists_cons
    obtain ⟨rfl, -⟩ := List.cons.inj hus
    exact absurd ht (not_isLayout_of_mem_statementKinds (hline.kind_mem t (.head us)))

/-- Layout in front of statements does not matter. -/
theorem derives_append_iff (hus : ∀ t ∈ us, IsLayout t) : Derives (us ++ ts) ss ↔ Derives ts ss := by
  induction us with
  | nil => rfl
  | cons t us ih =>
    obtain ⟨ht, hus⟩ := List.forall_mem_cons.mp hus
    rw [← ih hus]
    exact ⟨fun h => h.of_cons ht, .layout ht⟩

theorem EndsLine.of_append {rest : List Token} (h : EndsLine (rest ++ us)) (hvs : EndsLine vs) :
    EndsLine (rest ++ vs) := by
  cases rest with
  | nil => exact hvs
  | cons t rest => exact h

section Exchange

variable (hus : ∀ t ∈ us, IsLayout t) (hvs : ∀ t ∈ vs, IsLayout t)

include hus hvs

/-- Layout may be exchanged where a line ends before and after. -/
theorem Derives.exchange (hends : EndsLine (us ++ after)) (hends' : EndsLine (vs ++ after))
    (h : Derives (before ++ (us ++ after)) ss) : Derives (before ++ (vs ++ after)) ss := by
  generalize hts : before ++ (us ++ after) = ts at h
  induction h generalizing before with
  | empty =>
    obtain ⟨rfl, htail⟩ := List.append_eq_nil_iff.mp hts
    obtain ⟨-, rfl⟩ := List.append_eq_nil_iff.mp htail
    exact (derives_append_iff hvs).mpr .empty
  | @layout t ts ss ht hss ih =>
    cases before with
    | nil =>
      rw [List.nil_append, derives_append_iff hvs, ← derives_append_iff hus]
      rw [List.nil_append] at hts
      rw [hts]
      exact .layout ht hss
    | cons u before =>
      obtain ⟨rfl, rfl⟩ := List.cons.inj hts
      exact .layout ht (ih rfl)
  | objective hline hstop _ ih =>
    obtain ⟨rest, rfl, rfl⟩ := exists_of_endsLine hline.kind_mem hends hts.symm
    rw [List.append_assoc]
    exact .objective hline (hstop.of_append hends') (ih rfl)
  | @closedObjective line o t tail ss hline ht _ ih =>
    obtain ⟨rest, rfl, hrest⟩ := exists_of_endsLine hline.kind_mem hends hts.symm
    cases rest with
    | nil =>
      rw [List.nil_append] at hrest
      rw [← hrest] at hends
      have hkind : t.kind ∈ statementKinds := by rw [ht]; decide
      exact absurd hends (not_isLayout_of_mem_statementKinds hkind)
    | cons u rest =>
      obtain ⟨rfl, rfl⟩ := List.cons.inj hrest
      rw [List.append_assoc]
      exact .closedObjective hline ht (ih rfl)
  | constraints hline hstop _ ih =>
    obtain ⟨rest, rfl, rfl⟩ := exists_of_endsLine hline.kind_mem hends hts.symm
    rw [List.append_assoc]
    exact .constraints hline (hstop.of_append hends') (ih rfl)

end Exchange

/-- A line may be put in in front of another. -/
theorem derives_insert_iff (hbefore : ∀ u ∈ before.getLast?, IsLayout u) (ht : IsLayout t) :
    Derives (before ++ t :: after) ss ↔ Derives (before ++ after) ss := by
  obtain rfl | ⟨front, u, rfl⟩ := List.eq_nil_or_concat' before
  · have hone : ∀ u ∈ [t], IsLayout u := List.forall_mem_singleton.mpr ht
    exact derives_append_iff hone
  · have hu : IsLayout u := hbefore u (by simp)
    have hone : ∀ v ∈ [u], IsLayout v := List.forall_mem_singleton.mpr hu
    have htwo : ∀ v ∈ [u, t], IsLayout v := List.forall_mem_cons.mpr ⟨hu, by simpa using ht⟩
    rw [List.append_assoc, List.append_assoc]
    exact ⟨Derives.exchange htwo hone hu hu, Derives.exchange hone htwo hu hu⟩

/-- Behind every comment the line ends. -/
def CommentsEndLines : List Token → Prop
  | [] => True
  | t :: ts => (t.kind = .comment → EndsLine ts) ∧ CommentsEndLines ts

/-- Everything but the comments. -/
def code (ts : List Token) : List Token := ts.filter (·.kind ≠ .comment)

/-- Comments do not matter to the statements. -/
theorem derives_code_iff (h : CommentsEndLines ts) : Derives (code ts) ss ↔ Derives ts ss := by
  -- the tokens in front of the cut keep their comments, those behind it have lost them
  have hcut : ∀ before ts, CommentsEndLines ts →
      (Derives (before ++ code ts) ss ↔ Derives (before ++ ts) ss) := by
    intro before ts h
    induction ts generalizing before with
    | nil => rfl
    | cons t ts ih =>
      obtain ⟨hends, hts⟩ := h
      by_cases ht : t.kind = .comment
      · have hcode : code (t :: ts) = code ts := List.filter_cons_of_neg (by simp [ht])
        have hlayout : ∀ u ∈ [t], IsLayout u := List.forall_mem_singleton.mpr (.inr ht)
        have hnone : ∀ u ∈ ([] : List Token), IsLayout u := by simp
        have hfront : EndsLine ([t] ++ ts) := .inr ht
        rw [hcode, ih before hts]
        constructor
        · exact Derives.exchange hnone hlayout (hends ht) hfront
        · exact Derives.exchange hlayout hnone hfront (hends ht)
      · have hcode : code (t :: ts) = t :: code ts := List.filter_cons_of_pos (by simp [ht])
        have hshift := ih (before ++ [t]) hts
        rw [List.append_assoc, List.append_assoc] at hshift
        rw [hcode]
        exact hshift
  exact hcut [] ts h

end Grammar

end LinearProgram

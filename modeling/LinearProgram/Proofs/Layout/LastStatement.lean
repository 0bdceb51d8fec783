import LinearProgram.Proofs.Layout.Changes

/-! # The last statement of a text

A text that does not end in a break ends in an objective or in a line of constraints. A semicolon closes
the objective; behind constraints it asks for another chain, and no objective can stand there.
-/

namespace LinearProgram

namespace Grammar

variable {α : Type} [Scalar α] {before after front line ts us : List Token} {s : Token}
  {o : ObjectiveStatement α} {cs : List (ConstraintStatement α)} {ss ss' : List (Statement α)}

/-- Where a line ends, the statements of a text come apart. -/
theorem Derives.split (hafter : EndsLine after) (h : Derives (before ++ after) ss) :
    ∃ ss₁ ss₂, ss = ss₁ ++ ss₂ ∧ Derives before ss₁ ∧ Derives after ss₂ := by
  generalize hts : before ++ after = ts at h
  induction h generalizing before with
  | empty =>
    obtain ⟨rfl, rfl⟩ := List.append_eq_nil_iff.mp hts
    exact ⟨[], [], rfl, .empty, .empty⟩
  | @layout t ts ss ht hss ih =>
    cases before with
    | nil =>
      rw [List.nil_append] at hts
      exact ⟨[], ss, rfl, .empty, hts ▸ .layout ht hss⟩
    | cons u before =>
      obtain ⟨rfl, rfl⟩ := List.cons.inj hts
      obtain ⟨ss₁, ss₂, rfl, hbefore, hrest⟩ := ih rfl
      exact ⟨ss₁, ss₂, rfl, .layout ht hbefore, hrest⟩
  | objective hline hends _ ih =>
    obtain ⟨rest, rfl, rfl⟩ := exists_of_endsLine hline.kind_mem hafter hts.symm
    obtain ⟨ss₁, ss₂, rfl, hrest, htail⟩ := ih rfl
    have hends' := hends.of_append (show EndsLine [] from trivial)
    rw [List.append_nil] at hends'
    exact ⟨_, ss₂, rfl, .objective hline hends' hrest, htail⟩
  | @closedObjective line o t tail ss hline ht _ ih =>
    obtain ⟨rest, rfl, hrest⟩ := exists_of_endsLine hline.kind_mem hafter hts.symm
    cases rest with
    | nil =>
      rw [List.nil_append] at hrest
      rw [← hrest] at hafter
      have hkind : t.kind ∈ statementKinds := by rw [ht]; decide
      exact absurd hafter (not_isLayout_of_mem_statementKinds hkind)
    | cons u rest =>
      obtain ⟨rfl, rfl⟩ := List.cons.inj hrest
      obtain ⟨ss₁, ss₂, rfl, hrest, htail⟩ := ih rfl
      exact ⟨_, ss₂, rfl, .closedObjective hline ht hrest, htail⟩
  | constraints hline hends _ ih =>
    obtain ⟨rest, rfl, rfl⟩ := exists_of_endsLine hline.kind_mem hafter hts.symm
    obtain ⟨ss₁, ss₂, rfl, hrest, htail⟩ := ih rfl
    have hends' := hends.of_append (show EndsLine [] from trivial)
    rw [List.append_nil] at hends'
    exact ⟨_, ss₂, (List.append_assoc _ _ _).symm, .constraints hline hends' hrest, htail⟩

section Kinds

theorem ObjectiveLine.kind_ne_semicolon (h : ObjectiveLine line o) :
    ∀ t ∈ line, t.kind ≠ .semicolon := by
  have hexpression : ∀ {k : TokenKind}, k ∈ expressionKinds → k ≠ .semicolon := by
    intro k
    revert k
    decide
  cases h with
  | mk hkeyword hcolon hnaming hsum =>
    rw [List.forall_mem_cons, List.forall_mem_append, List.forall_mem_append]
    refine ⟨?_, ?_, ?_, fun t ht => hexpression (hsum.kind_mem t ht)⟩
    · generalize Token.kind _ = k at hkeyword
      cases hkeyword <;> decide
    · cases hcolon with
      | none => simp
      | some ht => simp [ht]
    · cases hnaming with
      | none => simp
      | some hname hequals => simp [hname, hequals]

theorem Spells.kind_ne_keyword {level : Level} {e : Expr α} (h : Spells level ts e) :
    ∀ t ∈ ts, t.kind ≠ .max ∧ t.kind ≠ .min := by
  have hexpression : ∀ {k : TokenKind}, k ∈ expressionKinds → k ≠ .max ∧ k ≠ .min := by
    intro k
    revert k
    decide
  exact fun t ht => hexpression (h.kind_mem t ht)

theorem Links.kind_ne_keyword {first : ℕ} {lhs : Expr α} (h : Links first lhs ts cs) :
    ∀ t ∈ ts, t.kind ≠ .max ∧ t.kind ≠ .min := by
  have hrelation : ∀ {k : TokenKind} {relation : Relation}, Denotes k relation →
      k ≠ .max ∧ k ≠ .min := by
    rintro k relation ⟨⟩ <;> decide
  induction h with
  | last ht hsum => exact List.forall_mem_cons.mpr ⟨hrelation ht, hsum.kind_ne_keyword⟩
  | more ht hsum _ ih =>
    rw [List.forall_mem_cons, List.forall_mem_append]
    exact ⟨hrelation ht, hsum.kind_ne_keyword, ih⟩

theorem Chain.kind_ne_keyword (h : Chain ts cs) : ∀ t ∈ ts, t.kind ≠ .max ∧ t.kind ≠ .min := by
  cases h with
  | mk hsum hlinks =>
    exact List.forall_mem_append.mpr ⟨hsum.kind_ne_keyword, hlinks.kind_ne_keyword⟩

theorem ConstraintLine.kind_ne_keyword (h : ConstraintLine line cs) :
    ∀ t ∈ line, t.kind ≠ .max ∧ t.kind ≠ .min := by
  induction h with
  | last hchain => exact hchain.kind_ne_keyword
  | more hchain ht _ ih =>
    rw [List.forall_mem_append, List.forall_mem_cons]
    refine ⟨hchain.kind_ne_keyword, ?_, ih⟩
    rcases ht with ht | ht <;> rw [ht] <;> decide

end Kinds

/-- A statement ends behind this token. -/
def Breaks (t : Token) : Prop := IsLayout t ∨ t.kind = .semicolon

theorem ObjectiveLine.not_breaks (h : ObjectiveLine line o) : ∀ t ∈ line, ¬ Breaks t := by
  rintro t ht (hlayout | hsemicolon)
  · exact not_isLayout_of_mem_statementKinds (h.kind_mem t ht) hlayout
  · exact h.kind_ne_semicolon t ht hsemicolon

theorem ObjectiveLine.exists_keyword (h : ObjectiveLine line o) :
    ∃ t ∈ line, t.kind = .max ∨ t.kind = .min := by
  obtain ⟨t, rest, sense, rfl, ht⟩ := h.exists_cons
  refine ⟨t, .head rest, ?_⟩
  generalize t.kind = k at ht
  cases ht
  · exact .inl rfl
  · exact .inr rfl

theorem ConstraintLine.not_keyword (h : ConstraintLine line cs) {t : Token} (ht : t ∈ line) :
    ¬ (t.kind = .max ∨ t.kind = .min) := by
  rintro (hk | hk)
  · exact (h.kind_ne_keyword t ht).1 hk
  · exact (h.kind_ne_keyword t ht).2 hk

/-- The line of constraints with which a text ends does not end an objective as well. -/
theorem ConstraintLine.not_objectiveLine (h : ConstraintLine line cs)
    (hfront : ∀ t ∈ front.getLast?, Breaks t) {front' line' : List Token}
    (hline' : ObjectiveLine line' o) : front ++ line ≠ front' ++ line' := by
  intro heq
  obtain ⟨t, ht, hkeyword⟩ := hline'.exists_keyword
  obtain ⟨more, rfl, rfl⟩ | ⟨more, rfl, rfl⟩ := List.append_eq_append_iff.mp heq
  · exact h.not_keyword (List.mem_append_right more ht) hkeyword
  · -- the objective begins before the constraints, which stand behind a break
    obtain rfl | ⟨more, u, rfl⟩ := List.eq_nil_or_concat' more
    · exact h.not_keyword ht hkeyword
    · have hu : Breaks u := hfront u (by simp)
      exact hline'.not_breaks u (by simp) hu

section LastTokens

theorem Spells.exists_concat {level : Level} {e : Expr α} (h : Spells level ts e) :
    ∃ init t, ts = init ++ [t] ∧ t.kind ∈ expressionKinds := by
  obtain rfl | ⟨init, t, rfl⟩ := List.eq_nil_or_concat' ts
  · exact absurd rfl h.ne_nil
  · exact ⟨init, t, rfl, h.kind_mem t (by simp)⟩

theorem Links.exists_concat {first : ℕ} {lhs : Expr α} (h : Links first lhs ts cs) :
    ∃ init t, ts = init ++ [t] ∧ t.kind ∈ expressionKinds := by
  induction h with
  | @last lhs u relation us rhs hu hsum =>
    obtain ⟨init, t, rfl, ht⟩ := hsum.exists_concat
    exact ⟨u :: init, t, rfl, ht⟩
  | @more lhs u relation us rhs vs cs hu hsum _ ih =>
    obtain ⟨init, t, rfl, ht⟩ := ih
    exact ⟨u :: (us ++ init), t, by simp, ht⟩

/-- A line of constraints ends in an expression. -/
theorem ConstraintLine.exists_concat (h : ConstraintLine line cs) :
    ∃ init t, line = init ++ [t] ∧ t.kind ∈ expressionKinds := by
  induction h with
  | last hchain =>
    obtain @⟨left, lhs, right, cs, -, hlinks⟩ := hchain
    obtain ⟨init, t, rfl, ht⟩ := hlinks.exists_concat
    exact ⟨left ++ init, t, by simp, ht⟩
  | @more left cs u us ds hchain hu _ ih =>
    obtain ⟨init, t, rfl, ht⟩ := ih
    exact ⟨left ++ u :: init, t, by simp, ht⟩

theorem ConstraintLine.exists_getLast? (h : ConstraintLine line cs) :
    ∃ c, cs.getLast? = some c := by
  have hne : cs ≠ [] := by
    induction h with
    | last hchain =>
      obtain ⟨-, hlinks⟩ := hchain
      cases hlinks <;> exact List.cons_ne_nil _ _
    | more _ _ _ ih => exact List.append_ne_nil_of_right_ne_nil _ ih
  exact ⟨_, List.getLast?_eq_some_getLast hne⟩

end LastTokens

/-- A semicolon at the end of a line stands behind an objective. -/
theorem Derives.exists_objectiveLine_of_semicolon (hs : s.kind = .semicolon)
    (hafter : EndsLine after) (h : Derives (before ++ s :: after) ss) :
    ∃ front line, ∃ o : ObjectiveStatement α, before = front ++ line ∧ ObjectiveLine line o := by
  generalize hts : before ++ s :: after = ts at h
  induction h generalizing before with
  | empty => simp at hts
  | @layout t ts ss ht _ ih =>
    cases before with
    | nil =>
      obtain ⟨rfl, -⟩ := List.cons.inj hts
      rcases ht with hk | hk <;> rw [hs] at hk <;> cases hk
    | cons u before =>
      obtain ⟨rfl, rfl⟩ := List.cons.inj hts
      obtain ⟨front, line, o, rfl, hline⟩ := ih rfl
      exact ⟨u :: front, line, o, rfl, hline⟩
  | @objective line' o' tail ss hline' _ _ ih =>
    obtain ⟨rest, rfl, rfl⟩ | ⟨t, rest, rfl, hrest⟩ := exists_of_append_eq_append hts.symm
    · obtain ⟨front, line, o, rfl, hline⟩ := ih rfl
      exact ⟨line' ++ front, line, o, by simp, hline⟩
    · obtain ⟨rfl, -⟩ := List.cons.inj hrest
      exact absurd hs (hline'.kind_ne_semicolon s (by simp))
  | @closedObjective line' o' t tail ss hline' ht _ ih =>
    obtain ⟨rest, rfl, hrest⟩ | ⟨t, rest, rfl, hrest⟩ := exists_of_append_eq_append hts.symm
    · cases rest with
      | nil => exact ⟨[], line', o', by simp, hline'⟩
      | cons u rest =>
        obtain ⟨rfl, rfl⟩ := List.cons.inj hrest
        obtain ⟨front, line, o, rfl, hline⟩ := ih rfl
        exact ⟨line' ++ t :: front, line, o, by simp, hline⟩
    · obtain ⟨rfl, -⟩ := List.cons.inj hrest
      exact absurd hs (hline'.kind_ne_semicolon s (by simp))
  | @constraints line' cs tail ss hline' _ _ ih =>
    obtain ⟨rest, rfl, rfl⟩ | ⟨t, rest, rfl, hrest⟩ := exists_of_append_eq_append hts.symm
    · obtain ⟨front, line, o, rfl, hline⟩ := ih rfl
      exact ⟨line' ++ front, line, o, by simp, hline⟩
    · -- the semicolon asks for another chain, but the line ends
      obtain ⟨rfl, rfl⟩ := List.cons.inj hrest
      cases rest with
      | nil =>
        obtain ⟨init, u, heq, hu⟩ := hline'.exists_concat
        obtain ⟨-, hlast⟩ := List.append_inj' heq rfl
        obtain rfl := List.singleton_inj.mp hlast
        rw [hs] at hu
        exact absurd hu (by decide)
      | cons u rest =>
        exact absurd hafter (not_isLayout_of_mem_statementKinds (hline'.kind_mem u (by simp)))

section LastStatement

/-- The text ends in an objective, which a semicolon may close. -/
def EndsInObjective (ts : List Token) (ss : List (Statement α)) : Prop :=
  (∃ o, ss.getLast? = some (.objective o)) ∧
    ∀ s us ss', s.kind = .semicolon → Derives us ss' → Derives (ts ++ s :: us) (ss ++ ss')

/-- The text ends in a line of constraints. -/
def EndsInConstraints (ts : List Token) (ss : List (Statement α)) : Prop :=
  (∃ c, ss.getLast? = some (.constraint c)) ∧
    ∃ front line, ∃ cs : List (ConstraintStatement α), ts = front ++ line ∧
      ConstraintLine line cs ∧ ∀ t ∈ front.getLast?, Breaks t

theorem EndsInObjective.append (h : EndsInObjective us ss) (front : List Token)
    (ss₀ : List (Statement α))
    (hfront : ∀ rest ss', Derives (us ++ rest) ss' → Derives (front ++ (us ++ rest)) (ss₀ ++ ss')) :
    EndsInObjective (front ++ us) (ss₀ ++ ss) := by
  obtain ⟨⟨o, ho⟩, hclose⟩ := h
  refine ⟨⟨o, by simp [List.getLast?_append, ho]⟩, fun s rest ss' hs hrest => ?_⟩
  rw [List.append_assoc, List.append_assoc]
  exact hfront _ _ (hclose s rest ss' hs hrest)

theorem EndsInConstraints.append (h : EndsInConstraints us ss) (front : List Token)
    (ss₀ : List (Statement α))
    (hfront : EndsLine us ∨ ∀ t ∈ front.getLast?, Breaks t) :
    EndsInConstraints (front ++ us) (ss₀ ++ ss) := by
  obtain ⟨⟨c, hc⟩, more, line, cs, rfl, hline, hmore⟩ := h
  refine ⟨⟨c, by simp [List.getLast?_append, hc]⟩, front ++ more, line, cs,
    (List.append_assoc _ _ _).symm, hline, ?_⟩
  obtain rfl | ⟨more, u, rfl⟩ := List.eq_nil_or_concat' more
  · obtain hends | hbreaks := hfront
    · obtain ⟨t, rest, rfl, ht⟩ := hline.exists_cons
      exact absurd hends (not_isLayout_of_mem_statementKinds (List.mem_append_right _ ht))
    · simpa using hbreaks
  · simpa using hmore

theorem Derives.eq_nil (h : Derives [] ss) : ss = [] := by
  generalize hts : ([] : List Token) = ts at h
  cases h with
  | empty => rfl
  | layout => cases hts
  | objective hline =>
    obtain ⟨t, rest, -, rfl, -⟩ := hline.exists_cons
    cases hts
  | closedObjective hline =>
    obtain ⟨t, rest, -, rfl, -⟩ := hline.exists_cons
    cases hts
  | constraints hline =>
    obtain ⟨t, rest, rfl, -⟩ := hline.exists_cons
    cases hts

/-- The last statement of a text that does not end in a break. -/
theorem Derives.exists_last (h : Derives ts ss) (hlast : ∃ t ∈ ts.getLast?, ¬ Breaks t) :
    EndsInObjective ts ss ∨ EndsInConstraints ts ss := by
  induction h with
  | empty => simp at hlast
  | @layout t ts ss ht _ ih =>
    have hbreaks : ∀ u ∈ [t].getLast?, Breaks u := by
      rintro u ⟨⟩
      exact .inl ht
    obtain rfl | ⟨init, u, rfl⟩ := List.eq_nil_or_concat' ts
    · obtain ⟨v, hv, hnot⟩ := hlast
      exact absurd (hbreaks v hv) hnot
    · have hrest := ih (by simpa [List.getLast?_cons] using hlast)
      exact hrest.imp (·.append [t] [] fun _ _ => .layout ht)
        (·.append [t] [] (.inr hbreaks))
  | @objective line o us ss hline hends hus ih =>
    obtain rfl | ⟨init, u, rfl⟩ := List.eq_nil_or_concat' us
    · obtain rfl := hus.eq_nil
      rw [List.append_nil]
      exact .inl ⟨⟨o, rfl⟩, fun s rest ss' hs => .closedObjective hline hs⟩
    · have hrest := ih (by simpa using hlast)
      refine hrest.imp (·.append _ [_] fun rest ss' => .objective hline ?_)
        (·.append _ [_] (.inl hends))
      cases init <;> exact hends
  | @closedObjective line o t us ss hline ht hus ih =>
    have hbreaks : ∀ u ∈ (line ++ [t]).getLast?, Breaks u := by
      simp [Breaks, ht]
    obtain rfl | ⟨init, u, rfl⟩ := List.eq_nil_or_concat' us
    · obtain ⟨v, hv, hnot⟩ := hlast
      exact absurd (hbreaks v hv) hnot
    · have hrest := ih (by simpa [List.getLast?_cons] using hlast)
      rw [← List.singleton_append, ← List.append_assoc]
      refine hrest.imp (·.append _ [_] fun rest ss' h => ?_)
        (·.append _ [_] (.inr hbreaks))
      rw [List.append_assoc line]
      exact .closedObjective hline ht h
  | @constraints line cs us ss hline hends hus ih =>
    obtain rfl | ⟨init, u, rfl⟩ := List.eq_nil_or_concat' us
    · obtain rfl := hus.eq_nil
      obtain ⟨c, hc⟩ := hline.exists_getLast?
      rw [List.append_nil, List.append_nil]
      exact .inr ⟨⟨c, by simp [hc]⟩, [], line, cs, rfl, hline, by simp⟩
    · have hrest := ih (by simpa using hlast)
      refine hrest.imp (·.append _ _ fun rest ss' => .constraints hline ?_)
        (·.append _ _ (.inl hends))
      cases init <;> exact hends

/-- A semicolon is put in where a line ends: behind an objective it changes nothing, behind
constraints the text is no longer accepted. -/
theorem Derives.insert_semicolon (hs : s.kind = .semicolon) (hafter : EndsLine after)
    (hlast : ∃ t ∈ before.getLast?, ¬ Breaks t) (h : Derives (before ++ after) ss) :
    ∃ ss₁ ss₂, ss = ss₁ ++ ss₂ ∧ Derives before ss₁ ∧
      ((∃ o, ss₁.getLast? = some (.objective o)) ∧ Derives (before ++ s :: after) ss ∨
        (∃ c, ss₁.getLast? = some (.constraint c)) ∧
          ∀ ss' : List (Statement α), ¬ Derives (before ++ s :: after) ss') := by
  obtain ⟨ss₁, ss₂, rfl, hbefore, hrest⟩ := h.split hafter
  refine ⟨ss₁, ss₂, rfl, hbefore, ?_⟩
  obtain ⟨ho, hclose⟩ | ⟨hc, front, line, cs, rfl, hline, hfront⟩ := hbefore.exists_last hlast
  · exact .inl ⟨ho, hclose s after ss₂ hs hrest⟩
  · refine .inr ⟨hc, fun ss' h' => ?_⟩
    obtain ⟨front', line', o, heq, hline'⟩ := h'.exists_objectiveLine_of_semicolon hs hafter
    exact hline.not_objectiveLine hfront hline' heq

end LastStatement

end Grammar

end LinearProgram

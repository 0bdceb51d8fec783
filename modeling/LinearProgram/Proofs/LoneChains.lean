import LinearProgram.Proofs.AcceptedTexts

/-! # Texts of one chain

A chain of relations by itself is accepted with nothing but layout around it.
-/

namespace LinearProgram

open Grammar

variable {α : Type} [Scalar α] {ts us : List Token} {t : Token}
  {cs : List (ConstraintStatement α)}

namespace Grammar

/-- One chain, with layout around it. -/
inductive LoneChain : List Token → List (ConstraintStatement α) → Prop where
  | mk {before us after cs} : (∀ t ∈ before, IsLayout t) → Chain us cs →
      (∀ t ∈ after, IsLayout t) → LoneChain (before ++ (us ++ after)) cs

end Grammar

namespace Parser

omit [Scalar α] in
theorem isLayout_iff : isLayout t = true ↔ IsLayout t := by
  simp [isLayout, IsLayout]

omit [Scalar α] in
theorem exists_layout (ts : List Token) :
    ∃ us, ts = us ++ skipLayout ts ∧ ∀ t ∈ us, IsLayout t := by
  refine ⟨ts.takeWhile isLayout, List.takeWhile_append_dropWhile.symm, ?_⟩
  intro t ht
  exact isLayout_iff.mp (List.mem_takeWhile_imp ht)

omit [Scalar α] in
theorem skipLayout_append (h : ∀ t ∈ ts, IsLayout t) (hus : ∀ t ∈ us.head?, ¬ IsLayout t) :
    skipLayout (ts ++ us) = us := by
  unfold skipLayout
  rw [List.dropWhile_append_of_pos fun t ht => isLayout_iff.mpr (h t ht)]
  cases us with
  | nil => rfl
  | cons t us => exact List.dropWhile_cons_of_neg (isLayout_iff.not.mpr (hus t rfl))

variable {eof : Token} (heof : eof.kind = .eof)

include heof

theorem loneChain_sound (hts : ∀ t ∈ ts, t.kind ≠ .eof) (h : loneChain (ts ++ [eof]) = .ok cs) :
    LoneChain ts cs := by
  obtain ⟨found, hfound, h⟩ := bind_eq_ok.mp h
  obtain ⟨before, hbefore, hlayout⟩ := exists_layout (ts ++ [eof])
  obtain ⟨us, hus, hchain⟩ := chain_sound hfound
  obtain ⟨after, hafter, hlayout'⟩ := exists_layout found.rest
  split at h
  · cases h
  · next t rest hrest =>
    split at h
    · next ht =>
      cases h
      have hsplit : ts ++ [eof] = before ++ (us ++ after) ++ t :: rest := by
        rw [hbefore, hus, hafter, hrest]
        simp
      have hsame := congrArg beforeEnd hsplit
      rw [beforeEnd_append hts, beforeEnd_of_eof heof, beforeEnd_append, beforeEnd_of_eof ht,
        List.append_nil, List.append_nil] at hsame
      · have hlone := LoneChain.mk hlayout hchain hlayout'
        rwa [← hsame] at hlone
      · rw [List.forall_mem_append, List.forall_mem_append]
        exact ⟨fun t ht => (hlayout t ht).kind_ne.1, hchain.kind_ne_eof,
          fun t ht => (hlayout' t ht).kind_ne.1⟩
    · cases h

theorem loneChain_complete (hts : ∀ t ∈ ts, IsLegible t) (h : LoneChain ts cs) :
    loneChain (ts ++ [eof]) = .ok cs := by
  obtain @⟨before, us, after, cs, hbefore, hchain, hafter⟩ := h
  rw [List.forall_mem_append, List.forall_mem_append] at hts
  have hskip : skipLayout (before ++ (us ++ after) ++ [eof]) = us ++ (after ++ [eof]) := by
    rw [List.append_assoc, List.append_assoc]
    apply skipLayout_append hbefore
    obtain ⟨t, us, rfl, ht⟩ := hchain.exists_cons
    rintro t' ⟨⟩ (hlayout | hlayout) <;> rw [hlayout] at ht <;> revert ht <;> decide
  have hskip' : skipLayout (after ++ [eof]) = [eof] := by
    apply skipLayout_append hafter
    rintro t ⟨⟩ hlayout
    exact hlayout.kind_ne.1 heof
  have hends : FollowedBy chainEnds (after ++ [eof]) := by
    cases after with
    | nil => exact followedBy_cons (by rw [heof]; decide) []
    | cons t after =>
      refine followedBy_cons ?_ (after ++ [eof])
      rcases hafter t List.mem_cons_self with ht | ht <;> rw [ht] <;> decide
  obtain ⟨hlt, hread⟩ := chain_complete hchain hts.2.1 hends
  unfold loneChain
  rw [hskip, hread]
  simp only [bind, Except.bind, hskip', heof, if_true]

/-- A chain is read with the layout around it, up to the end of the text. -/
theorem loneChain_eq_ok_iff (hts : ∀ t ∈ ts, t.kind ≠ .eof ∧ IsLegible t) :
    loneChain (ts ++ [eof]) = .ok cs ↔ LoneChain ts cs :=
  ⟨loneChain_sound heof fun t ht => (hts t ht).1, loneChain_complete heof fun t ht => (hts t ht).2⟩

end Parser

/-- A text is accepted as a chain if its tokens are one. -/
theorem ConstraintStatement.parse_iff_loneChain {source : String} :
    ConstraintStatement.parse source = .ok cs ↔
      LoneChain (Parser.beforeEnd (tokenize source)) cs := by
  obtain ⟨ts, eof, hts, heof, hall⟩ := Cursor.tokens_eq_append ⟨0, source.toList⟩
  have hend : Parser.beforeEnd (ts ++ [eof]) = ts := by
    rw [Parser.beforeEnd_append fun t ht => (hall t ht).1, Parser.beforeEnd_of_eof heof,
      List.append_nil]
  rw [tokenize, hts, hend, ← Parser.loneChain_eq_ok_iff heof hall, ← hts]
  rfl

end LinearProgram

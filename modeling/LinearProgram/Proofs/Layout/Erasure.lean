import LinearProgram.Proofs.PrintedForms
import LinearProgram.Proofs.Relocation

/-! # Programs without positions

The words of a text decide its program up to the positions in it. A derivation is carried from one
list of tokens to another with the same words, and the trees differ in their spans only.
-/

namespace LinearProgram

variable {α : Type}

def Statement.relocate (f : ℕ → ℕ) : Statement α → Statement α
  | .objective o => .objective (o.relocate f)
  | .constraint c => .constraint (c.relocate f)

/-- The program with every position set to zero. -/
def Program.erase (p : Program α) : Program α :=
  ⟨p.statements.map (Statement.relocate fun _ => 0)⟩

namespace Grammar

variable [Scalar α] {f : ℕ → ℕ} {level : Level} {first : ℕ} {ts us : List Token} {e lhs : Expr α}
  {cs : List (ConstraintStatement α)} {o : ObjectiveStatement α} {ss : List (Statement α)}

section Relocation

theorem ConstraintLine.relocate (f : ℕ → ℕ) (h : ConstraintLine ts cs) :
    ConstraintLine (ts.map (Token.relocate f)) (cs.map (ConstraintStatement.relocate f)) := by
  induction h with
  | last hts => exact .last (hts.relocate f)
  | more hts ht _ ih =>
    rw [List.map_append, List.map_append]
    exact .more (hts.relocate f) ht ih

theorem EndsLine.relocate (f : ℕ → ℕ) (h : EndsLine ts) : EndsLine (ts.map (Token.relocate f)) := by
  cases ts with
  | nil => trivial
  | cons t ts => exact h

omit [Scalar α] in
theorem map_relocate_constraint (f : ℕ → ℕ) (cs : List (ConstraintStatement α)) :
    (cs.map Statement.constraint).map (Statement.relocate f) =
      (cs.map (ConstraintStatement.relocate f)).map .constraint := by
  rw [List.map_map, List.map_map]
  rfl

theorem Derives.relocate (f : ℕ → ℕ) (h : Derives ts ss) :
    Derives (ts.map (Token.relocate f)) (ss.map (Statement.relocate f)) := by
  induction h with
  | empty => exact .empty
  | layout ht _ ih => exact .layout ht ih
  | objective hts hends _ ih =>
    rw [List.map_append]
    exact .objective (hts.relocate f) (hends.relocate f) ih
  | closedObjective hts ht _ ih =>
    rw [List.map_append]
    exact .closedObjective (hts.relocate f) ht ih
  | constraints hts hends _ ih =>
    rw [List.map_append, List.map_append, map_relocate_constraint]
    exact .constraints (hts.relocate f) (hends.relocate f) ih

end Relocation

section Return

/-! A derivation from moved tokens is a moved derivation. -/

omit [Scalar α] in
theorem exists_of_map_eq_append_cons {β : Type} {g : Token → β} {b : β} {vs ws : List β}
    (h : ts.map g = vs ++ b :: ws) : ∃ left u right, ts = left ++ u :: right ∧
      left.map g = vs ∧ g u = b ∧ right.map g = ws := by
  obtain ⟨left, rest, rfl, hleft, hrest⟩ := List.map_eq_append_iff.mp h
  obtain ⟨u, right, rfl, hu, hright⟩ := List.map_eq_cons_iff.mp hrest
  exact ⟨left, u, right, rfl, hleft, hu, hright⟩

theorem Spells.of_relocate (h : Spells level (ts.map (Token.relocate f)) e) :
    ∃ e', Spells level ts e' ∧ e'.relocate f = e := by
  generalize hus : ts.map (Token.relocate f) = us at h
  induction h generalizing ts with
  | number ht =>
    obtain ⟨t, rfl, rfl⟩ := List.map_eq_singleton_iff.mp hus
    exact ⟨_, .number ht, rfl⟩
  | name ht =>
    obtain ⟨t, rfl, rfl⟩ := List.map_eq_singleton_iff.mp hus
    exact ⟨_, .name ht, rfl⟩
  | group ho _ hc ih =>
    obtain ⟨opening, rest, rfl, rfl, hrest⟩ := List.map_eq_cons_iff.mp hus
    obtain ⟨inner, last, rfl, hinner, hlast⟩ := List.map_eq_append_iff.mp hrest
    obtain ⟨closing, rfl, rfl⟩ := List.map_eq_singleton_iff.mp hlast
    obtain ⟨e, he, rfl⟩ := ih hinner
    exact ⟨_, .group ho he hc, rfl⟩
  | unsigned _ ih =>
    obtain ⟨e, he, rfl⟩ := ih hus
    exact ⟨_, .unsigned he, rfl⟩
  | minus ht _ ih =>
    obtain ⟨t, rest, rfl, rfl, hrest⟩ := List.map_eq_cons_iff.mp hus
    obtain ⟨e, he, rfl⟩ := ih hrest
    exact ⟨_, .minus ht he, rfl⟩
  | plus ht _ ih =>
    obtain ⟨t, rest, rfl, rfl, hrest⟩ := List.map_eq_cons_iff.mp hus
    obtain ⟨e, he, rfl⟩ := ih hrest
    exact ⟨_, .plus ht he, rfl⟩
  | factor _ ih =>
    obtain ⟨e, he, rfl⟩ := ih hus
    exact ⟨_, .factor he, rfl⟩
  | mul _ ht _ ihl ihr =>
    obtain ⟨left, t, right, rfl, hleft, rfl, hright⟩ := exists_of_map_eq_append_cons hus
    obtain ⟨l, hl, rfl⟩ := ihl hleft
    obtain ⟨r, hr, rfl⟩ := ihr hright
    exact ⟨_, .mul hl ht hr, rfl⟩
  | div _ ht _ ihl ihr =>
    obtain ⟨left, t, right, rfl, hleft, rfl, hright⟩ := exists_of_map_eq_append_cons hus
    obtain ⟨l, hl, rfl⟩ := ihl hleft
    obtain ⟨r, hr, rfl⟩ := ihr hright
    exact ⟨_, .div hl ht hr, rfl⟩
  | beside _ ht _ ihl ihr =>
    obtain ⟨left, rest, rfl, hleft, hrest⟩ := List.map_eq_append_iff.mp hus
    obtain ⟨t, right, rfl, rfl, -⟩ := List.map_eq_cons_iff.mp hrest
    obtain ⟨l, hl, rfl⟩ := ihl hleft
    obtain ⟨r, hr, rfl⟩ := ihr hrest
    exact ⟨_, .beside hl ht hr, rfl⟩
  | term _ ih =>
    obtain ⟨e, he, rfl⟩ := ih hus
    exact ⟨_, .term he, rfl⟩
  | add _ ht _ ihl ihr =>
    obtain ⟨left, t, right, rfl, hleft, rfl, hright⟩ := exists_of_map_eq_append_cons hus
    obtain ⟨l, hl, rfl⟩ := ihl hleft
    obtain ⟨r, hr, rfl⟩ := ihr hright
    exact ⟨_, .add hl ht hr, rfl⟩
  | sub _ ht _ ihl ihr =>
    obtain ⟨left, t, right, rfl, hleft, rfl, hright⟩ := exists_of_map_eq_append_cons hus
    obtain ⟨l, hl, rfl⟩ := ihl hleft
    obtain ⟨r, hr, rfl⟩ := ihr hright
    exact ⟨_, .sub hl ht hr, rfl⟩

theorem Links.of_relocate (h : Links (f first) (lhs.relocate f) (ts.map (Token.relocate f)) cs) :
    ∃ cs', Links first lhs ts cs' ∧ cs'.map (ConstraintStatement.relocate f) = cs := by
  generalize hfirst : f first = first' at h
  generalize hlhs : lhs.relocate f = lhs' at h
  generalize hus : ts.map (Token.relocate f) = us at h
  induction h generalizing lhs ts with
  | @last lhs' t' relation us rhs ht hrhs =>
    subst hfirst hlhs
    obtain ⟨t, rest, rfl, rfl, rfl⟩ := List.map_eq_cons_iff.mp hus
    obtain ⟨e, he, rfl⟩ := hrhs.of_relocate
    refine ⟨_, .last ht he, ?_⟩
    rw [stop_relocate he.ne_nil]
    rfl
  | @more lhs' t' relation us rhs vs cs ht hrhs _ ih =>
    subst hfirst hlhs
    obtain ⟨t, rest, rfl, rfl, hrest⟩ := List.map_eq_cons_iff.mp hus
    obtain ⟨right, tail, rfl, rfl, htail⟩ := List.map_eq_append_iff.mp hrest
    obtain ⟨e, he, rfl⟩ := hrhs.of_relocate
    obtain ⟨cs, hcs, rfl⟩ := ih rfl htail
    refine ⟨_, .more ht he hcs, ?_⟩
    rw [stop_relocate he.ne_nil]
    rfl

theorem Chain.of_relocate (h : Chain (ts.map (Token.relocate f)) cs) :
    ∃ cs', Chain ts cs' ∧ cs'.map (ConstraintStatement.relocate f) = cs := by
  generalize hus : ts.map (Token.relocate f) = us at h
  cases h with
  | mk hleft hlinks =>
    obtain ⟨left, rest, rfl, rfl, rfl⟩ := List.map_eq_append_iff.mp hus
    obtain ⟨lhs, hlhs, rfl⟩ := hleft.of_relocate
    rw [start_relocate hlhs.ne_nil] at hlinks
    obtain ⟨cs, hcs, rfl⟩ := hlinks.of_relocate
    exact ⟨cs, .mk hlhs hcs, rfl⟩

theorem ConstraintLine.of_relocate (h : ConstraintLine (ts.map (Token.relocate f)) cs) :
    ∃ cs', ConstraintLine ts cs' ∧ cs'.map (ConstraintStatement.relocate f) = cs := by
  generalize hus : ts.map (Token.relocate f) = us at h
  induction h generalizing ts with
  | last hchain =>
    subst hus
    obtain ⟨cs, hcs, rfl⟩ := hchain.of_relocate
    exact ⟨cs, .last hcs, rfl⟩
  | more hchain ht _ ih =>
    obtain ⟨left, t, right, rfl, rfl, rfl, hright⟩ := exists_of_map_eq_append_cons hus
    obtain ⟨cs, hcs, rfl⟩ := hchain.of_relocate
    obtain ⟨ds, hds, rfl⟩ := ih hright
    exact ⟨cs ++ ds, .more hcs ht hds, List.map_append⟩

theorem ObjectiveLine.of_relocate (h : ObjectiveLine (ts.map (Token.relocate f)) o) :
    ∃ o', ObjectiveLine ts o' ∧ o'.relocate f = o := by
  generalize hus : ts.map (Token.relocate f) = us at h
  obtain ⟨hkeyword, hcolon, hnaming, hsum⟩ := h
  obtain ⟨keyword, rest, rfl, rfl, hrest⟩ := List.map_eq_cons_iff.mp hus
  obtain ⟨colon, rest, rfl, rfl, htail⟩ := List.map_eq_append_iff.mp hrest
  obtain ⟨naming, sum, rfl, rfl, rfl⟩ := List.map_eq_append_iff.mp htail
  obtain ⟨e, he, rfl⟩ := hsum.of_relocate
  have hcolon' : Colon colon := by
    generalize hmap : colon.map (Token.relocate f) = ts at hcolon
    cases hcolon with
    | none =>
      rw [List.map_eq_nil_iff.mp hmap]
      exact .none
    | some ht =>
      obtain ⟨t, rfl, rfl⟩ := List.map_eq_singleton_iff.mp hmap
      exact .some ht
  have hnaming' := hnaming
  generalize hmap : naming.map (Token.relocate f) = ts at hnaming'
  cases hnaming' with
  | none =>
    obtain rfl := List.map_eq_nil_iff.mp hmap
    refine ⟨_, .mk hkeyword hcolon' .none he, ?_⟩
    rw [stop_relocate he.ne_nil]
    rfl
  | some hname hequals =>
    obtain ⟨name, rest, rfl, rfl, hrest⟩ := List.map_eq_cons_iff.mp hmap
    obtain ⟨equals, rfl, rfl⟩ := List.map_eq_singleton_iff.mp hrest
    refine ⟨_, .mk hkeyword hcolon' (.some hname hequals) he, ?_⟩
    rw [stop_relocate he.ne_nil]
    rfl

theorem EndsLine.of_relocate (h : EndsLine (ts.map (Token.relocate f))) : EndsLine ts := by
  cases ts with
  | nil => trivial
  | cons t ts => exact h

theorem Derives.of_relocate (h : Derives (ts.map (Token.relocate f)) ss) :
    ∃ ss', Derives ts ss' ∧ ss'.map (Statement.relocate f) = ss := by
  generalize hus : ts.map (Token.relocate f) = us at h
  induction h generalizing ts with
  | empty =>
    obtain rfl := List.map_eq_nil_iff.mp hus
    exact ⟨[], .empty, rfl⟩
  | layout ht _ ih =>
    obtain ⟨t, rest, rfl, rfl, hrest⟩ := List.map_eq_cons_iff.mp hus
    obtain ⟨ss, hss, rfl⟩ := ih hrest
    exact ⟨ss, .layout ht hss, rfl⟩
  | objective hline hends _ ih =>
    obtain ⟨line, rest, rfl, rfl, rfl⟩ := List.map_eq_append_iff.mp hus
    obtain ⟨o, ho, rfl⟩ := hline.of_relocate
    obtain ⟨ss, hss, rfl⟩ := ih rfl
    exact ⟨_, .objective ho hends.of_relocate hss, rfl⟩
  | closedObjective hline ht _ ih =>
    obtain ⟨line, t, rest, rfl, rfl, rfl, rfl⟩ := exists_of_map_eq_append_cons hus
    obtain ⟨o, ho, rfl⟩ := hline.of_relocate
    obtain ⟨ss, hss, rfl⟩ := ih rfl
    exact ⟨_, .closedObjective ho ht hss, rfl⟩
  | constraints hline hends _ ih =>
    obtain ⟨line, rest, rfl, rfl, rfl⟩ := List.map_eq_append_iff.mp hus
    obtain ⟨cs, hcs, rfl⟩ := hline.of_relocate
    obtain ⟨ss, hss, rfl⟩ := ih rfl
    refine ⟨_, .constraints hcs hends.of_relocate hss, ?_⟩
    rw [List.map_append, map_relocate_constraint]

end Return

/-- Tokens with the same words spell the same statements, up to positions. -/
theorem Derives.of_words (hwords : us.map word = ts.map word) (h : Derives ts ss) :
    ∃ ss', Derives us ss' ∧
      ss'.map (Statement.relocate fun _ => 0) = ss.map (Statement.relocate fun _ => 0) := by
  have hzero : ∀ t : Token, t.relocate (fun _ => 0) = ⟨(word t).1, ⟨0, 0⟩, (word t).2⟩ :=
    fun _ => rfl
  have hmap : us.map (Token.relocate fun _ => 0) = ts.map (Token.relocate fun _ => 0) := by
    have hcongr := congrArg (List.map fun w : TokenKind × String => Token.mk w.1 ⟨0, 0⟩ w.2) hwords
    simpa only [List.map_map, Function.comp_def, ← hzero] using hcongr
  have hmoved := h.relocate fun _ => 0
  rw [← hmap] at hmoved
  exact hmoved.of_relocate

end Grammar

end LinearProgram

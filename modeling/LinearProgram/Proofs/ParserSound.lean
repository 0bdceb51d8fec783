import LinearProgram.Proofs.ParserSteps
import LinearProgram.Proofs.Tokens

/-! # What the parser reads is in the grammar

Every reader takes tokens off the front that the grammar derives, and returns their tree.
-/

namespace LinearProgram

namespace Parser

open Grammar

variable {α : Type} [Scalar α]

/-- An expression of this level has been taken off the front, and these tokens are left. -/
def Takes (level : Level) (ts : List Token) (v : Located α) (rest : List Token) : Prop :=
  ∃ us, ts = us ++ rest ∧ Spells level us v.expr ∧ v.stop = stop us

/-- If the reader succeeds, it has taken an expression of this level off the front. -/
def IsSound (level : Level) (read : ∀ ts, Reading (Located α) ts) (ts : List Token) : Prop :=
  ∀ r, read ts = .ok r → Takes level ts r.value r.rest

/-- If the reader succeeds behind an expression of this level, it has taken one off the front that
may be longer. -/
def IsSoundBehind (level : Level)
    (read : ∀ ts, Parsed (Located α) ts → Reading (Located α) ts) (ts : List Token)
    (left : Parsed (Located α) ts) : Prop :=
  Takes level ts left.value left.rest → ∀ r, read ts left = .ok r → Takes level ts r.value r.rest

section Joining

variable {level level' : Level} {ts rest after : List Token} {t : Token} {v w : Located α}
  {op : Operator}

theorem Takes.mono (h : Takes level ts v rest)
    (rule : ∀ {us e}, Spells (α := α) level us e → Spells level' us e) :
    Takes level' ts v rest := by
  obtain ⟨us, hts, hspells, hstop⟩ := h
  exact ⟨us, hts, rule hspells, hstop⟩

/-- An operand with a sign in front. -/
theorem Takes.sign {e : Expr α} (h : Takes .signed rest v after)
    (rule : ∀ {us}, Spells .signed us v.expr → Spells .signed (t :: us) e) :
    Takes .signed (t :: rest) ⟨e, v.stop⟩ after := by
  obtain ⟨us, rfl, hus, hstop⟩ := h
  exact ⟨t :: us, rfl, rule hus, hstop.trans (stop_cons hus.ne_nil).symm⟩

/-- Two operands with a sign between them. -/
theorem Takes.join (hl : Takes level ts v (t :: rest)) (hr : Takes level' rest w after)
    (rule : ∀ {us ws}, Spells level us v.expr → Spells level' ws w.expr →
      Spells level (us ++ t :: ws) (.binary v.expr op w.expr)) :
    Takes level ts (combine v op w) after := by
  obtain ⟨us, rfl, hus, -⟩ := hl
  obtain ⟨ws, rfl, hws, hstop⟩ := hr
  refine ⟨us ++ t :: ws, by simp, rule hus hws, ?_⟩
  rw [stop_append_cons hws.ne_nil, ← hstop]
  rfl

/-- Two operands with nothing between them. -/
theorem Takes.beside (hl : Takes .product ts v (t :: rest)) (ht : beginsFactor t.kind = true)
    (hr : Takes .signed (t :: rest) w after) : Takes .product ts (combine v .mul w) after := by
  obtain ⟨us, rfl, hus, -⟩ := hl
  obtain ⟨ws, hrest, hws, hstop⟩ := hr
  obtain ⟨t', ws, rfl⟩ := List.exists_cons_of_ne_nil hws.ne_nil
  obtain ⟨rfl, rfl⟩ := List.cons.inj hrest
  have hkind : t.kind = .ident ∨ t.kind = .lparen := by
    cases hk : t.kind <;> simp_all [beginsFactor]
  refine ⟨us ++ t :: ws, by simp, .beside hus hkind (hws.operand_of_kind hkind), ?_⟩
  rw [stop_append (List.cons_ne_nil _ _), ← hstop]
  rfl

theorem Takes.close {inner : Parsed (Located α) rest} (h : Takes .sum rest inner.value inner.rest)
    (ht : t.kind = .lparen) {r : Parsed (Located α) (t :: rest)}
    (hr : Parser.close inner = .ok r) : Takes .operand (t :: rest) r.value r.rest := by
  obtain ⟨v, after, hlt⟩ := inner
  obtain ⟨us, hrest, hus, -⟩ := h
  cases after with
  | nil => cases hr
  | cons closing after =>
    unfold Parser.close at hr
    dsimp only at hr
    split at hr
    · next hclosing =>
      cases hr
      exact ⟨t :: (us ++ [closing]), by simpa using hrest, .group ht hus hclosing,
        (stop_cons_concat closing).symm⟩
    · cases hr

end Joining

/-- All readers of expressions are sound. -/
theorem isSound : (∀ ts, IsSound (α := α) .sum sum ts) ∧
    (∀ ts left, IsSoundBehind (α := α) .sum sumTail ts left) ∧
    (∀ ts, IsSound (α := α) .product product ts) ∧
    (∀ ts left, IsSoundBehind (α := α) .product productTail ts left) ∧
    (∀ ts, IsSound (α := α) .signed signed ts) ∧ ∀ ts, IsSound (α := α) .operand operand ts := by
  -- the readers call each other, so one induction goes through the branches of all six
  refine sum.mutual_induct (IsSound .sum sum) (IsSoundBehind .sum sumTail)
    (IsSound .product product) (IsSoundBehind .product productTail) (IsSound .signed signed)
    (IsSound .operand operand) ?_ ?_ ?_ ?_ ?_ ?_ ?_ ?_ ?_ ?_ ?_ ?_ ?_ ?_ ?_ ?_ ?_ ?_ ?_ ?_
  -- sums
  · intro ts hproduct htail r hr
    rw [sum_eq] at hr
    obtain ⟨first, hfirst, hr⟩ := bind_eq_ok.mp hr
    exact htail first ((hproduct first hfirst).mono .term) r hr
  · rintro ts ⟨v, rest, h⟩ - rfl hl r hr
    rw [sumTail_nil] at hr
    cases hr
    exact hl
  · rintro ts ⟨v, rest, h⟩ - t rest' rfl - ht hl r hr
    rw [sumTail_of_none h ht] at hr
    cases hr
    exact hl
  · rintro ts ⟨v, rest, h⟩ _ t rest' rfl _ op ht hproduct htail hl r hr
    rw [sumTail_of_some h ht] at hr
    obtain ⟨right, hright, hr⟩ := bind_eq_ok.mp hr
    refine htail right (hl.join (hproduct right hright) fun hus hws => ?_) r hr
    cases hk : t.kind <;> rw [hk] at ht <;> cases ht
    · exact .add hus hk hws
    · exact .sub hus hk hws
  -- products
  · intro ts hsigned htail r hr
    rw [product_eq] at hr
    obtain ⟨first, hfirst, hr⟩ := bind_eq_ok.mp hr
    exact htail first ((hsigned first hfirst).mono .factor) r hr
  · rintro ts ⟨v, rest, h⟩ - rfl hl r hr
    rw [productTail_nil] at hr
    cases hr
    exact hl
  · rintro ts ⟨v, rest, h⟩ _ t rest' rfl _ op ht hsigned htail hl r hr
    rw [productTail_of_sign h ht] at hr
    obtain ⟨right, hright, hr⟩ := bind_eq_ok.mp hr
    refine htail right (hl.join (hsigned right hright) fun hus hws => ?_) r hr
    cases hk : t.kind <;> rw [hk] at ht <;> cases ht
    · exact .mul hus hk hws
    · exact .div hus hk hws
  · rintro ts ⟨v, rest, h⟩ _ t rest' rfl _ ht hf hsigned htail hl r hr
    rw [productTail_of_factor h ht hf] at hr
    obtain ⟨right, hright, hr⟩ := bind_eq_ok.mp hr
    exact htail right (hl.beside hf (hsigned right hright)) r hr
  · rintro ts ⟨v, rest, h⟩ - t rest' rfl - ht hf hl r hr
    rw [productTail_of_none h ht (Bool.eq_false_iff.mpr hf)] at hr
    cases hr
    exact hl
  -- signed operands
  · intro hoperand r hr
    rw [signed] at hr
    exact (hoperand r hr).mono .unsigned
  · intro t rest ht hsigned r hr
    rw [signed_of_minus ht] at hr
    obtain ⟨inner, hinner, hr⟩ := bind_eq_ok.mp hr
    cases hr
    exact (hsigned inner hinner).sign (.minus ht)
  · intro t rest _ ht hsigned r hr
    rw [signed_of_plus ht] at hr
    obtain ⟨inner, hinner, hr⟩ := bind_eq_ok.mp hr
    cases hr
    exact (hsigned inner hinner).sign (.plus ht)
  · intro t rest hminus hplus hoperand r hr
    rw [signed_of_ne hminus hplus] at hr
    exact (hoperand r hr).mono .unsigned
  -- operands
  · intro r hr
    rw [operand] at hr
    cases hr
  · intro t rest ht x hx r hr
    rw [operand_of_number ht hx] at hr
    cases hr
    rw [eq_numeral_of_number? hx]
    exact ⟨[t], rfl, .number ht, rfl⟩
  · intro t rest ht hx r hr
    rw [operand] at hr
    simp [ht, hx] at hr
  · intro t rest ht r hr
    rw [operand_of_ident ht] at hr
    cases hr
    exact ⟨[t], rfl, .name ht, rfl⟩
  · intro t rest ht hsum r hr
    rw [operand_of_lparen ht] at hr
    obtain ⟨⟨v, after, hlt⟩, hinner, hr⟩ := bind_eq_ok.mp hr
    exact (hsum _ hinner).close ht hr
  · intro t rest ht r hr
    rw [operand] at hr
    simp [ht] at hr
  · intro t rest hnumber hident hlparen heof r hr
    rw [operand] at hr
    split at hr <;> contradiction

section Statements

variable {ts rest : List Token} {t : Token}

theorem takes_of_sum {r : Parsed (Located α) ts} (h : sum ts = .ok r) :
    Takes .sum ts r.value r.rest :=
  isSound.1 ts r h

omit [Scalar α] in
theorem denotes_of_relation? {k : TokenKind} {relation : Relation}
    (h : relation? k = some relation) : Denotes k relation := by
  cases k <;> cases h <;> constructor

theorem links_sound {first : ℕ} {lhs : Expr α} {r : Parsed (List (ConstraintStatement α)) ts}
    (h : links first lhs ts = .ok r) : ∃ us, ts = us ++ r.rest ∧ Links first lhs us r.value := by
  induction lhs, ts using links.induct with
  | case1 lhs =>
    rw [links] at h
    cases h
  | case2 lhs t rest ht =>
    rw [links] at h
    simp only [ht] at h
    cases h
  | case3 lhs t rest relation ht ih =>
    rw [links_of_some ht] at h
    obtain ⟨rhs, hrhs, h⟩ := bind_eq_ok.mp h
    obtain ⟨us, hrest, hus, hstop⟩ := takes_of_sum hrhs
    have hdenotes := denotes_of_relation? ht
    unfold linksBehind at h
    dsimp only at h
    split at h
    · obtain ⟨more, hmore, h⟩ := bind_eq_ok.mp h
      cases h
      obtain ⟨vs, hvs, hlinks⟩ := ih rhs hmore
      refine ⟨t :: (us ++ vs), by simp [hrest, hvs], ?_⟩
      rw [hstop]
      exact .more hdenotes hus hlinks
    · cases h
      refine ⟨t :: us, by simp [hrest], ?_⟩
      rw [hstop]
      exact .last hdenotes hus

theorem chain_sound {r : Parsed (List (ConstraintStatement α)) ts} (h : chain ts = .ok r) :
    ∃ us, ts = us ++ r.rest ∧ Chain us r.value := by
  unfold chain at h
  obtain ⟨lhs, hlhs, h⟩ := bind_eq_ok.mp h
  obtain ⟨more, hmore, h⟩ := bind_eq_ok.mp h
  cases h
  obtain ⟨us, hts, hus, -⟩ := takes_of_sum hlhs
  obtain ⟨vs, hvs, hlinks⟩ := links_sound hmore
  have hstart : (ts.head?.map (·.span.start)).getD 0 = start us := by
    rw [hts]
    exact start_append hus.ne_nil
  rw [hstart] at hlinks
  refine ⟨us ++ vs, ?_, .mk hus hlinks⟩
  rw [List.append_assoc]
  exact hts.trans (congrArg (us ++ ·) hvs)

/-- A line of constraints goes on behind every semicolon. -/
theorem chains_sound {r : Parsed (List (ConstraintStatement α)) ts} (h : chains ts = .ok r) :
    (∃ us, ts = us ++ r.rest ∧ ConstraintLine us r.value) ∧
      ∀ t after, r.rest = t :: after → t.kind ≠ .semicolon := by
  induction ts using chains.induct with
  | case1 ts ih =>
    rw [chains_eq] at h
    obtain ⟨first, hfirst, h⟩ := bind_eq_ok.mp h
    obtain ⟨us, hts, hus⟩ := chain_sound hfirst
    obtain ⟨cs, rest, hlt⟩ := first
    cases rest with
    | nil =>
      cases h
      exact ⟨⟨us, hts, .last hus⟩, nofun⟩
    | cons t rest =>
      simp only [chainsBehind] at h
      split at h
      · next ht =>
        obtain ⟨more, hmore, h⟩ := bind_eq_ok.mp h
        cases h
        obtain ⟨⟨vs, hvs, hline⟩, hend⟩ := ih ⟨cs, t :: rest, hlt⟩ t rest rfl hmore
        refine ⟨⟨us ++ t :: vs, ?_, .more hus ht hline⟩, hend⟩
        rw [List.append_assoc, List.cons_append, ← hvs]
        exact hts
      · next ht =>
        cases h
        refine ⟨⟨us, hts, .last hus⟩, ?_⟩
        rintro t' after ⟨⟩ hsemicolon
        exact ht (Or.inr hsemicolon)

omit [Scalar α] in
theorem colon_skipColon (ts : List Token) : ∃ us, ts = us ++ skipColon ts ∧ Colon us := by
  unfold skipColon
  split
  · split
    · next t rest ht => exact ⟨[t], rfl, .some ht⟩
    · exact ⟨[], rfl, .none⟩
  · exact ⟨[], rfl, .none⟩

omit [Scalar α] in
theorem naming_objectiveName (ts : List Token) :
    ∃ us, ts = us ++ (objectiveName ts).2 ∧ Naming us (objectiveName ts).1 := by
  unfold objectiveName
  split
  · split
    · next name equals rest h => exact ⟨[name, equals], rfl, .some h.1 h.2⟩
    · exact ⟨[], rfl, .none⟩
  · exact ⟨[], rfl, .none⟩

theorem objective_sound {sense : Sense} {r : Parsed (ObjectiveStatement α) ts}
    (h : objective sense t.span.start ts = .ok r) (ht : Keyword t.kind sense) :
    ∃ us, ts = us ++ r.rest ∧ ObjectiveLine (t :: us) r.value := by
  unfold objective at h
  obtain ⟨e, he, h⟩ := bind_eq_ok.mp h
  cases h
  obtain ⟨colon, hcolon, hc⟩ := colon_skipColon ts
  obtain ⟨naming, hnaming, hn⟩ := naming_objectiveName (skipColon ts)
  obtain ⟨us, hrest, hus, hstop⟩ := takes_of_sum he
  refine ⟨colon ++ (naming ++ us), ?_, ?_⟩
  · rw [List.append_assoc, List.append_assoc]
    exact hcolon.trans (congrArg (colon ++ ·) (hnaming.trans (congrArg (naming ++ ·) hrest)))
  · rw [hstop]
    exact .mk ht hc hn hus

/-- An objective, or constraints and no semicolon behind them. -/
def IsLine (ts : List Token) (ss : List (Statement α)) (left : List Token) : Prop :=
  (∃ o, ss = [.objective o] ∧ ObjectiveLine ts o) ∨
    (∃ cs, ss = cs.map .constraint ∧ ConstraintLine ts cs) ∧
      ∀ t after, left = t :: after → t.kind ≠ .semicolon

theorem line_sound {r : Parsed (List (Statement α)) ts} (h : line ts = .ok r) :
    ∃ us, ts = us ++ r.rest ∧ IsLine us r.value r.rest := by
  cases ts with
  | nil => cases h
  | cons t rest =>
    by_cases hkeyword : ∃ sense, Keyword t.kind sense
    · obtain ⟨sense, hkeyword⟩ := hkeyword
      rw [line_of_keyword hkeyword] at h
      obtain ⟨o, ho, h⟩ := bind_eq_ok.mp h
      cases h
      obtain ⟨us, hrest, hline⟩ := objective_sound ho hkeyword
      exact ⟨t :: us, congrArg (t :: ·) hrest, Or.inl ⟨_, rfl, hline⟩⟩
    · rw [line_of_not_keyword (not_exists.mp hkeyword)] at h
      obtain ⟨cs, hcs, h⟩ := bind_eq_ok.mp h
      cases h
      obtain ⟨⟨us, hts, hline⟩, hend⟩ := chains_sound hcs
      exact ⟨us, hts, Or.inr ⟨⟨_, rfl, hline⟩, hend⟩⟩

omit [Scalar α] in
/-- What ends a statement is left alone unless it is a semicolon. -/
theorem endStatement_eq_ok {behind : { rest : List Token // rest.length ≤ ts.length }}
    (h : endStatement ts = .ok behind) : EndsLine (beforeEnd ts) ∧ behind.1 = ts ∨
      ∃ t, ts = t :: behind.1 ∧ t.kind = .semicolon := by
  unfold endStatement at h
  split at h
  · cases h
    exact Or.inl ⟨trivial, rfl⟩
  · next t rest =>
    split at h
    · next ht =>
      cases h
      refine Or.inl ⟨?_, rfl⟩
      rw [beforeEnd_cons (by simp [ht])]
      exact Or.inl ht
    · next ht =>
      cases h
      refine Or.inl ⟨?_, rfl⟩
      rw [beforeEnd_cons (by simp [ht])]
      exact Or.inr ht
    · next ht =>
      cases h
      refine Or.inl ⟨?_, rfl⟩
      rw [beforeEnd_of_eof ht]
      trivial
    · next ht =>
      cases h
      exact Or.inr ⟨t, rfl, ht⟩
    · cases h

theorem derives_of_skipLayout {ss : List (Statement α)}
    (h : Derives (beforeEnd (skipLayout ts)) ss) : Derives (beforeEnd ts) ss := by
  induction ts with
  | nil => exact h
  | cons t ts ih =>
    by_cases ht : isLayout t = true
    · rw [skipLayout, List.dropWhile_cons_of_pos ht] at h
      have hlayout : IsLayout t := by simpa [isLayout, IsLayout] using ht
      have hne : t.kind ≠ .eof := by rcases hlayout with ht | ht <;> simp [ht]
      rw [beforeEnd_cons hne]
      exact .layout hlayout (ih h)
    · rwa [skipLayout, List.dropWhile_cons_of_neg ht] at h

/-- A line, what ends it and the statements behind it. -/
theorem IsLine.derives {us left : List Token} {found more : List (Statement α)}
    {behind : { rest : List Token // rest.length ≤ left.length }} (h : IsLine us found left)
    (hbehind : endStatement left = .ok behind) (hmore : Derives (beforeEnd behind.1) more) :
    Derives (beforeEnd (us ++ left)) (found ++ more) := by
  rcases h with ⟨o, rfl, hline⟩ | ⟨⟨cs, rfl, hline⟩, hopen⟩
  · rw [beforeEnd_append hline.kind_ne_eof]
    rcases endStatement_eq_ok hbehind with ⟨hend, hleft⟩ | ⟨t, hleft, ht⟩
    · rw [hleft] at hmore
      exact .objective hline hend hmore
    · rw [hleft, beforeEnd_cons (by simp [ht])]
      exact .closedObjective hline ht hmore
  · rw [beforeEnd_append hline.kind_ne_eof]
    rcases endStatement_eq_ok hbehind with ⟨hend, hleft⟩ | ⟨t, hleft, ht⟩
    · rw [hleft] at hmore
      exact .constraints hline hend hmore
    · exact absurd ht (hopen t _ hleft)

theorem statements_sound {ss : List (Statement α)} (h : statements ts = .ok ss) :
    Derives (beforeEnd ts) ss := by
  induction ts using statements.induct (α := α) generalizing ss with
  | case1 ts _ hskip =>
    rw [statements_of_nil hskip] at h
    cases h
    apply derives_of_skipLayout
    rw [hskip]
    exact .empty
  | case2 ts _ t rest hskip ht =>
    rw [statements_of_eof hskip ht] at h
    cases h
    apply derives_of_skipLayout
    rw [hskip, beforeEnd_of_eof ht]
    exact .empty
  | case3 ts _ t rest hskip ht ih =>
    rw [statements_of_line hskip ht] at h
    obtain ⟨found, hfound, h⟩ := bind_eq_ok.mp h
    obtain ⟨behind, hbehind, h⟩ := bind_eq_ok.mp h
    obtain ⟨more, hmore, h⟩ := bind_eq_ok.mp h
    cases h
    obtain ⟨us, hus, hline⟩ := line_sound hfound
    have hderives := hline.derives hbehind (ih found behind hmore)
    rw [← hus] at hderives
    apply derives_of_skipLayout
    rwa [hskip]

end Statements

end Parser

end LinearProgram

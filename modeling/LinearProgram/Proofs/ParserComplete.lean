import LinearProgram.Proofs.ParserSteps
import LinearProgram.Proofs.Tokens

/-! # What is in the grammar is read

A reader takes exactly the tokens of a derivation off the front, if what follows them cannot
continue it. Which tokens may follow is said by kind.
-/

namespace LinearProgram

namespace Parser

open Grammar

variable {α : Type} [Scalar α]

/-- If anything follows, its first token is of one of these kinds. -/
def FollowedBy (kinds : List TokenKind) (rest : List Token) : Prop :=
  ∀ t ∈ rest.head?, t.kind ∈ kinds

/-- What may follow a line of constraints. -/
def lineEnds : List TokenKind := [.newline, .comment, .eof]

/-- What may follow an objective. -/
def objectiveEnds : List TokenKind := .semicolon :: lineEnds

/-- What may follow a chain. -/
def chainEnds : List TokenKind := .comma :: objectiveEnds

/-- What may follow a sum. -/
def sumEnds : List TokenKind := .rparen :: .le :: .ge :: .eq :: chainEnds

/-- What may follow a product. -/
def productEnds : List TokenKind := .plus :: .minus :: sumEnds

section Follow

variable {kinds wider : List TokenKind} {t : Token} {ts rest : List Token} {v : Located α}

theorem FollowedBy.mono (h : FollowedBy kinds rest) (hsub : kinds ⊆ wider) :
    FollowedBy wider rest :=
  fun t ht => hsub (h t ht)

theorem followedBy_cons (h : t.kind ∈ kinds) (rest : List Token) :
    FollowedBy kinds (t :: rest) := by
  intro t' ht'
  cases ht'
  exact h

theorem productTail_of_ends {hlt : rest.length < ts.length} (h : FollowedBy productEnds rest) :
    productTail ts ⟨v, rest, hlt⟩ = .ok ⟨v, rest, hlt⟩ := by
  cases rest with
  | nil => exact productTail_nil hlt
  | cons t rest =>
    have hstop : ∀ k ∈ productEnds, multiplicative? k = none ∧ beginsFactor k = false := by decide
    obtain ⟨hsign, hfactor⟩ := hstop _ (h t rfl)
    exact productTail_of_none hlt hsign hfactor

theorem sumTail_of_ends {hlt : rest.length < ts.length} (h : FollowedBy sumEnds rest) :
    sumTail ts ⟨v, rest, hlt⟩ = .ok ⟨v, rest, hlt⟩ := by
  cases rest with
  | nil => exact sumTail_nil hlt
  | cons t rest =>
    have hstop : ∀ k ∈ sumEnds, additive? k = none := by decide
    exact sumTail_of_none hlt (hstop _ (h t rfl))

end Follow

/-- The reader of a level, given these tokens, gets to the tree and what is behind it. Readers of
products and sums may go on from there. -/
def Reaches : Level → List Token → Located α → List Token → Prop
  | .operand, ts, v, rest => ∃ h, operand ts = .ok ⟨v, rest, h⟩
  | .signed, ts, v, rest => ∃ h, signed ts = .ok ⟨v, rest, h⟩
  | .product, ts, v, rest => ∃ h, product ts = productTail ts ⟨v, rest, h⟩
  | .sum, ts, v, rest => FollowedBy productEnds rest → ∃ h, sum ts = sumTail ts ⟨v, rest, h⟩

section Expressions

variable {level : Level} {ts rest after : List Token} {t closing : Token} {e : Expr α}
  {v w : Located α} {op : Operator}

theorem Reaches.product_eq_ok (h : Reaches .product ts v rest)
    (hrest : FollowedBy productEnds rest) : ∃ hlt, product ts = .ok ⟨v, rest, hlt⟩ := by
  obtain ⟨hlt, h⟩ := h
  exact ⟨hlt, h.trans (productTail_of_ends hrest)⟩

theorem Reaches.sum_eq_ok (h : Reaches .sum ts v rest) (hrest : FollowedBy sumEnds rest) :
    ∃ hlt, sum ts = .ok ⟨v, rest, hlt⟩ := by
  obtain ⟨hlt, h⟩ := h (hrest.mono (by decide))
  exact ⟨hlt, h.trans (sumTail_of_ends hrest)⟩

theorem Reaches.group (ht : t.kind = .lparen) (h : Reaches .sum ts v (closing :: rest))
    (hclosing : closing.kind = .rparen) :
    Reaches .operand (t :: ts) ⟨.paren v.expr, closing.span.stop⟩ rest := by
  obtain ⟨hlt, h⟩ := h.sum_eq_ok (followedBy_cons (by rw [hclosing]; decide) rest)
  refine ⟨Nat.lt_succ_of_lt (Nat.lt_of_succ_lt hlt), ?_⟩
  rw [operand_of_lparen ht, h]
  exact if_pos hclosing

theorem Reaches.unsigned (h : Reaches .operand (t :: ts) v rest) (hminus : t.kind ≠ .minus)
    (hplus : t.kind ≠ .plus) : Reaches .signed (t :: ts) v rest := by
  obtain ⟨hlt, h⟩ := h
  exact ⟨hlt, (signed_of_ne hminus hplus).trans h⟩

theorem Reaches.minus (ht : t.kind = .minus) (h : Reaches .signed ts v rest) :
    Reaches .signed (t :: ts) ⟨.neg v.expr, v.stop⟩ rest := by
  obtain ⟨hlt, h⟩ := h
  refine ⟨Nat.lt_succ_of_lt hlt, ?_⟩
  rw [signed_of_minus ht, h]
  rfl

theorem Reaches.plus (ht : t.kind = .plus) (h : Reaches .signed ts v rest) :
    Reaches .signed (t :: ts) v rest := by
  obtain ⟨hlt, h⟩ := h
  refine ⟨Nat.lt_succ_of_lt hlt, ?_⟩
  rw [signed_of_plus ht, h]
  rfl

theorem Reaches.factor (h : Reaches .signed ts v rest) : Reaches .product ts v rest := by
  obtain ⟨hlt, h⟩ := h
  refine ⟨hlt, ?_⟩
  rw [product_eq, h]
  rfl

theorem Reaches.multiplicative (hl : Reaches .product ts v (t :: rest))
    (ht : multiplicative? t.kind = some op) (hr : Reaches .signed rest w after) :
    Reaches .product ts (combine v op w) after := by
  obtain ⟨hlt, hl⟩ := hl
  obtain ⟨hlt', hr⟩ := hr
  refine ⟨(join v op (Nat.le_of_lt (Nat.lt_of_succ_lt hlt)) ⟨w, after, hlt'⟩).shorter, ?_⟩
  rw [hl, productTail_of_sign hlt ht, hr]
  rfl

theorem Reaches.beside (hl : Reaches .product ts v (t :: rest))
    (ht : t.kind = .ident ∨ t.kind = .lparen) (hr : Reaches .operand (t :: rest) w after) :
    Reaches .product ts (combine v .mul w) after := by
  obtain ⟨hlt, hl⟩ := hl
  obtain ⟨hlt', hr⟩ := hr.unsigned (by rcases ht with ht | ht <;> simp [ht])
    (by rcases ht with ht | ht <;> simp [ht])
  have hsign : multiplicative? t.kind = none := by rcases ht with ht | ht <;> rw [ht] <;> rfl
  have hfactor : beginsFactor t.kind = true := by rcases ht with ht | ht <;> rw [ht] <;> rfl
  refine ⟨(join v .mul (Nat.le_of_lt hlt) ⟨w, after, hlt'⟩).shorter, ?_⟩
  rw [hl, productTail_of_factor hlt hsign hfactor, hr]
  rfl

theorem Reaches.term (h : Reaches .product ts v rest) : Reaches .sum ts v rest := by
  intro hrest
  obtain ⟨hlt, h⟩ := h.product_eq_ok hrest
  refine ⟨hlt, ?_⟩
  rw [sum_eq, h]
  rfl

theorem Reaches.additive (hl : Reaches .sum ts v (t :: rest)) (ht : additive? t.kind = some op)
    (hr : Reaches .product rest w after) : Reaches .sum ts (combine v op w) after := by
  intro hafter
  have hmem : t.kind ∈ productEnds := by
    generalize t.kind = k at ht
    cases k <;> first | decide | cases ht
  obtain ⟨hlt, hl⟩ := hl (followedBy_cons hmem rest)
  obtain ⟨hlt', hr⟩ := hr.product_eq_ok hafter
  refine ⟨(join v op (Nat.le_of_lt (Nat.lt_of_succ_lt hlt)) ⟨w, after, hlt'⟩).shorter, ?_⟩
  rw [hl, sumTail_of_some hlt ht, hr]
  rfl

/-- Whatever follows, a reader gets through the tokens of an expression of its level. -/
theorem reaches_of_spells (h : Spells level ts e) (hlegible : ∀ t ∈ ts, IsLegible t)
    (rest : List Token) : Reaches level (ts ++ rest) ⟨e, stop ts⟩ rest := by
  induction h generalizing rest with
  | number ht => exact ⟨_, operand_of_number ht ((hlegible _ (.head _)).number?_eq ht)⟩
  | name ht => exact ⟨_, operand_of_ident ht⟩
  | @group opening ts closing e hopening hts hclosing ih =>
    rw [List.forall_mem_cons, List.forall_mem_append] at hlegible
    rw [stop_cons_concat, List.cons_append, List.append_assoc]
    exact (ih hlegible.2.1 (closing :: rest)).group hopening hclosing
  | @unsigned ts e hts ih =>
    obtain ⟨t, ts, rfl⟩ := List.exists_cons_of_ne_nil hts.ne_nil
    obtain ⟨hminus, hplus⟩ := hts.kind_ne_sign
    exact (ih hlegible rest).unsigned hminus hplus
  | minus ht hts ih =>
    rw [stop_cons hts.ne_nil]
    exact (ih (List.forall_mem_cons.mp hlegible).2 rest).minus ht
  | plus ht hts ih =>
    rw [stop_cons hts.ne_nil]
    exact (ih (List.forall_mem_cons.mp hlegible).2 rest).plus ht
  | factor _ ih => exact (ih hlegible rest).factor
  | mul _ ht hus ihl ihr =>
    rw [List.forall_mem_append, List.forall_mem_cons] at hlegible
    rw [stop_append_cons hus.ne_nil, List.append_assoc]
    exact (ihl hlegible.1 _).multiplicative (by rw [ht]; rfl) (ihr hlegible.2.2 rest)
  | div _ ht hus ihl ihr =>
    rw [List.forall_mem_append, List.forall_mem_cons] at hlegible
    rw [stop_append_cons hus.ne_nil, List.append_assoc]
    exact (ihl hlegible.1 _).multiplicative (by rw [ht]; rfl) (ihr hlegible.2.2 rest)
  | beside _ ht hus ihl ihr =>
    rw [List.forall_mem_append] at hlegible
    rw [stop_append hus.ne_nil, List.append_assoc]
    exact (ihl hlegible.1 _).beside ht (ihr hlegible.2 rest)
  | term _ ih => exact (ih hlegible rest).term
  | add _ ht hus ihl ihr =>
    rw [List.forall_mem_append, List.forall_mem_cons] at hlegible
    rw [stop_append_cons hus.ne_nil, List.append_assoc]
    exact (ihl hlegible.1 _).additive (by rw [ht]; rfl) (ihr hlegible.2.2 rest)
  | sub _ ht hus ihl ihr =>
    rw [List.forall_mem_append, List.forall_mem_cons] at hlegible
    rw [stop_append_cons hus.ne_nil, List.append_assoc]
    exact (ihl hlegible.1 _).additive (by rw [ht]; rfl) (ihr hlegible.2.2 rest)

theorem sum_complete (h : Spells .sum ts e) (hlegible : ∀ t ∈ ts, IsLegible t)
    (hrest : FollowedBy sumEnds rest) : ∃ hlt, sum (ts ++ rest) = .ok ⟨⟨e, stop ts⟩, rest, hlt⟩ :=
  (reaches_of_spells h hlegible rest).sum_eq_ok hrest

end Expressions

section Lines

variable {ts us rest : List Token} {lhs : Expr α} {cs : List (ConstraintStatement α)}

omit [Scalar α] in
theorem relation?_of_denotes {k : TokenKind} {relation : Relation} (h : Denotes k relation) :
    relation? k = some relation := by
  cases h <;> rfl

theorem relation?_head_of_chainEnds (h : FollowedBy chainEnds rest) :
    ¬ (rest.head?.bind fun next => relation? next.kind).isSome = true := by
  have hends : ∀ k ∈ chainEnds, relation? k = none := by decide
  cases rest with
  | nil => simp
  | cons t rest => simp [hends _ (h t rfl)]

theorem isSome_relation?_head {first : ℕ} (h : Links first lhs ts cs) (rest : List Token) :
    (((ts ++ rest).head?).bind fun next => relation? next.kind).isSome = true := by
  obtain ⟨t, us, relation, rfl, ht⟩ := h.exists_cons
  simp [relation?_of_denotes ht]

theorem followedBy_links {first : ℕ} (h : Links first lhs ts cs) (rest : List Token) :
    FollowedBy sumEnds (ts ++ rest) := by
  obtain ⟨t, us, relation, rfl, ht⟩ := h.exists_cons
  have hends {k relation} (h : Denotes k relation) : k ∈ sumEnds := by cases h <;> decide
  exact followedBy_cons (hends ht) (us ++ rest)

theorem links_complete {first : ℕ} (h : Links first lhs ts cs)
    (hlegible : ∀ t ∈ ts, IsLegible t) (hrest : FollowedBy chainEnds rest) :
    ∃ hlt, links first lhs (ts ++ rest) = .ok ⟨cs, rest, hlt⟩ := by
  induction h with
  | last ht hus =>
    obtain ⟨hlt, hsum⟩ := sum_complete hus (List.forall_mem_cons.mp hlegible).2
      (hrest.mono (by decide))
    rw [List.cons_append, links_of_some (relation?_of_denotes ht), hsum]
    exact ⟨Nat.lt_succ_of_lt hlt, if_neg (relation?_head_of_chainEnds hrest)⟩
  | more ht hus hvs ih =>
    rw [List.forall_mem_cons, List.forall_mem_append] at hlegible
    obtain ⟨hlt, hsum⟩ := sum_complete hus hlegible.2.1 (followedBy_links hvs rest)
    obtain ⟨hlt', hlinks⟩ := ih hlegible.2.2
    rw [List.cons_append, List.append_assoc, links_of_some (relation?_of_denotes ht), hsum]
    refine ⟨Nat.lt_succ_of_lt (Nat.lt_trans hlt' hlt), ?_⟩
    refine (if_pos (isSome_relation?_head hvs rest)).trans ?_
    rw [hlinks]
    rfl

theorem chain_complete (h : Chain ts cs) (hlegible : ∀ t ∈ ts, IsLegible t)
    (hrest : FollowedBy chainEnds rest) : ∃ hlt, chain (ts ++ rest) = .ok ⟨cs, rest, hlt⟩ := by
  cases h with
  | @mk ts lhs us cs hts hus =>
    rw [List.forall_mem_append] at hlegible
    obtain ⟨hlt, hsum⟩ := sum_complete hts hlegible.1 (followedBy_links hus rest)
    obtain ⟨hlt', hlinks⟩ := links_complete hus hlegible.2 hrest
    rw [List.append_assoc]
    refine ⟨Nat.lt_trans hlt' hlt, ?_⟩
    have hstart : ((ts ++ (us ++ rest)).head?.map (·.span.start)).getD 0 = start ts :=
      start_append hts.ne_nil
    rw [chain_of_sum hsum, hstart, hlinks]
    rfl

theorem chains_complete (h : ConstraintLine ts cs) (hlegible : ∀ t ∈ ts, IsLegible t)
    (hrest : FollowedBy lineEnds rest) : ∃ hlt, chains (ts ++ rest) = .ok ⟨cs, rest, hlt⟩ := by
  induction h with
  | last hts =>
    obtain ⟨hlt, hchain⟩ := chain_complete hts hlegible (hrest.mono (by decide))
    refine ⟨hlt, ?_⟩
    rw [chains_eq, hchain]
    cases rest with
    | nil => rfl
    | cons t rest =>
      have hends : ∀ k ∈ lineEnds, ¬ (k = .comma ∨ k = .semicolon) := by decide
      exact if_neg (hends _ (hrest t rfl))
  | more hts ht _ ih =>
    rw [List.forall_mem_append, List.forall_mem_cons] at hlegible
    obtain ⟨hlt, hchain⟩ := chain_complete hts hlegible.1
      (followedBy_cons (by rcases ht with ht | ht <;> rw [ht] <;> decide) (_ ++ rest))
    obtain ⟨hlt', hchains⟩ := ih hlegible.2.2
    rw [List.append_assoc, List.cons_append, chains_eq, hchain]
    refine ⟨Nat.lt_trans hlt' (Nat.lt_of_succ_lt hlt), ?_⟩
    refine (if_pos ht).trans ?_
    rw [hchains]
    rfl

end Lines

section Objectives

variable {ts us naming rest : List Token} {name : Option String} {e : Expr α}
  {o : ObjectiveStatement α}

omit [Scalar α] in
theorem skipColon_append (h : Colon ts) (hus : ∀ t ∈ us.head?, t.kind ≠ .colon) :
    skipColon (ts ++ us) = us := by
  cases h with
  | none =>
    cases us with
    | nil => rfl
    | cons t us => exact if_neg (hus t rfl)
  | some ht => exact if_pos ht

/-- The equals sign of a name does not come second in an expression, nor just behind one. -/
theorem second_ne_eq (h : Spells .sum ts e) (hrest : FollowedBy objectiveEnds rest) :
    ∀ next ∈ (ts ++ rest)[1]?, next.kind ≠ .eq := by
  intro next hnext
  obtain ⟨t, us, rfl⟩ := List.exists_cons_of_ne_nil h.ne_nil
  rw [List.cons_append, List.getElem?_cons_succ] at hnext
  cases us with
  | nil =>
    have hends : ∀ k ∈ objectiveEnds, k ≠ .eq := by decide
    rw [List.nil_append, ← List.head?_eq_getElem?] at hnext
    exact hends _ (hrest next hnext)
  | cons t' us =>
    have hkinds : ∀ k ∈ expressionKinds, k ≠ .eq := by decide
    cases hnext
    exact hkinds _ (h.kind_mem next (by simp))

theorem objectiveName_append (hnaming : Naming naming name) (h : Spells .sum ts e)
    (hrest : FollowedBy objectiveEnds rest) :
    objectiveName (naming ++ (ts ++ rest)) = (name, ts ++ rest) := by
  cases hnaming with
  | none =>
    rw [List.nil_append]
    exact objectiveName_of_ne (second_ne_eq h hrest)
  | some hname hequals => exact if_pos ⟨hname, hequals⟩

theorem head_ne_colon (hnaming : Naming naming name) (h : Spells .sum ts e) :
    ∀ t ∈ (naming ++ (ts ++ rest)).head?, t.kind ≠ .colon := by
  rintro t ht
  cases hnaming with
  | none =>
    obtain ⟨t', us, rfl, ht'⟩ := h.exists_cons
    have hkinds : ∀ k ∈ expressionKinds, k ≠ .colon := by decide
    cases ht
    exact hkinds _ ht'
  | some hname _ =>
    cases ht
    simp [hname]

theorem objective_complete (h : ObjectiveLine ts o) (hlegible : ∀ t ∈ ts, IsLegible t)
    (hrest : FollowedBy objectiveEnds rest) :
    ∃ hlt, line (ts ++ rest) = .ok ⟨[.objective o], rest, hlt⟩ := by
  cases h with
  | mk hkeyword hcolon hnaming hts =>
    rw [List.forall_mem_cons, List.forall_mem_append, List.forall_mem_append] at hlegible
    obtain ⟨hlt, hsum⟩ := sum_complete hts hlegible.2.2.2 (hrest.mono (by decide))
    have hname := objectiveName_append hnaming hts hrest
    rw [← skipColon_append hcolon (head_ne_colon hnaming hts)] at hname
    obtain ⟨hlt', hobjective⟩ := objective_of_sum hname hsum
    rw [List.cons_append, List.append_assoc, List.append_assoc, line_of_keyword hkeyword,
      hobjective]
    exact ⟨Nat.lt_succ_of_lt hlt', rfl⟩

end Objectives

section Statements

variable {ts us rest left behind : List Token} {t : Token} {found more ss : List (Statement α)}

theorem constraints_complete {cs : List (ConstraintStatement α)} (h : ConstraintLine ts cs)
    (hlegible : ∀ t ∈ ts, IsLegible t) (hrest : FollowedBy lineEnds rest) :
    ∃ hlt, line (ts ++ rest) = .ok ⟨cs.map .constraint, rest, hlt⟩ := by
  obtain ⟨t, us, rfl, ht⟩ := h.exists_cons
  have hkeyword (sense) : ¬ Keyword t.kind sense := by
    generalize t.kind = k at ht
    rintro ⟨⟩ <;> revert ht <;> decide
  obtain ⟨hlt, hchains⟩ : ∃ hlt, chains (t :: (us ++ rest)) = .ok ⟨cs, rest, hlt⟩ :=
    chains_complete h hlegible hrest
  rw [List.cons_append, line_of_not_keyword hkeyword, hchains]
  exact ⟨hlt, rfl⟩

omit [Scalar α] in
theorem endStatement_of_lineEnds (h : FollowedBy lineEnds rest) :
    endStatement rest = .ok ⟨rest, Nat.le_refl _⟩ := by
  cases rest with
  | nil => rfl
  | cons t rest =>
    have ht := h t rfl
    simp only [lineEnds, List.mem_cons, List.not_mem_nil, or_false] at ht
    unfold endStatement
    rcases ht with ht | ht | ht <;> simp only [ht]

omit [Scalar α] in
theorem endStatement_of_semicolon (ht : t.kind = .semicolon) (rest : List Token) :
    endStatement (t :: rest) = .ok ⟨rest, Nat.le_succ _⟩ := by
  unfold endStatement
  simp only [ht]

theorem statements_congr (h : skipLayout ts = skipLayout us) :
    (statements ts : Except ParseError (List (Statement α))) = statements us := by
  cases hus : skipLayout us with
  | nil => rw [statements_of_nil hus, statements_of_nil (h.trans hus)]
  | cons t rest =>
    by_cases ht : t.kind = .eof
    · rw [statements_of_eof hus ht, statements_of_eof (h.trans hus) ht]
    · rw [statements_of_line hus ht, statements_of_line (h.trans hus) ht]

/-- A line, what ends it and the statements behind it. -/
theorem statements_of_parts (ht : t.kind ∉ lineEnds)
    (hline : ∃ hlt, line (t :: us) = .ok ⟨found, left, hlt⟩)
    (hend : ∃ hle, endStatement left = .ok ⟨behind, hle⟩) (hmore : statements behind = .ok more) :
    statements (t :: us) = .ok (found ++ more) := by
  obtain ⟨hlt, hline⟩ := hline
  obtain ⟨hle, hend⟩ := hend
  simp only [lineEnds, List.mem_cons, List.not_mem_nil, or_false, not_or] at ht
  obtain ⟨hnewline, hcomment, heof⟩ := ht
  have hskip : skipLayout (t :: us) = t :: us :=
    List.dropWhile_cons_of_neg (by simp [isLayout, hnewline, hcomment])
  rw [statements_of_line hskip heof]
  exact bind_eq_ok.mpr ⟨_, hline, bind_eq_ok.mpr ⟨_, hend, bind_eq_ok.mpr ⟨_, hmore, rfl⟩⟩⟩

omit [Scalar α] in
theorem followedBy_of_endsLine (h : EndsLine ts) (hrest : FollowedBy [.eof] rest) :
    FollowedBy lineEnds (ts ++ rest) := by
  cases ts with
  | nil => exact hrest.mono (by decide)
  | cons t ts =>
    refine followedBy_cons ?_ _
    rcases h with ht | ht <;> rw [ht] <;> decide

omit [Scalar α] in
theorem notMem_lineEnds {k : TokenKind} {sense : Sense} (h : Keyword k sense) : k ∉ lineEnds := by
  cases h <;> decide

theorem statements_complete (h : Derives ts ss) (hlegible : ∀ t ∈ ts, IsLegible t)
    (hrest : FollowedBy [.eof] rest) : statements (ts ++ rest) = .ok ss := by
  induction h with
  | empty =>
    cases rest with
    | nil => exact statements_of_nil rfl
    | cons t rest =>
      have ht : t.kind = .eof := List.mem_singleton.mp (hrest t rfl)
      exact statements_of_eof (List.dropWhile_cons_of_neg (by simp [isLayout, ht])) ht
  | @layout t ts ss ht hts ih =>
    have hskip : skipLayout (t :: (ts ++ rest)) = skipLayout (ts ++ rest) :=
      List.dropWhile_cons_of_pos (by simpa [isLayout, IsLayout] using ht)
    rw [List.cons_append, statements_congr hskip]
    exact ih (List.forall_mem_cons.mp hlegible).2
  | objective hts hend hus ih =>
    rw [List.forall_mem_append] at hlegible
    have hends := followedBy_of_endsLine hend hrest
    have hline := objective_complete hts hlegible.1 (hends.mono (by decide))
    obtain ⟨t, ts, sense, rfl, ht⟩ := hts.exists_cons
    rw [List.append_assoc]
    exact statements_of_parts (notMem_lineEnds ht) hline ⟨_, endStatement_of_lineEnds hends⟩
      (ih hlegible.2)
  | @closedObjective _ _ t' us _ hts ht' hus ih =>
    rw [List.forall_mem_append, List.forall_mem_cons] at hlegible
    have hends : t'.kind ∈ objectiveEnds := by rw [ht']; decide
    have hline := objective_complete hts hlegible.1 (followedBy_cons hends (us ++ rest))
    obtain ⟨t, ts, sense, rfl, ht⟩ := hts.exists_cons
    rw [List.append_assoc]
    exact statements_of_parts (notMem_lineEnds ht) hline ⟨_, endStatement_of_semicolon ht' _⟩
      (ih hlegible.2.2)
  | constraints hts hend hus ih =>
    rw [List.forall_mem_append] at hlegible
    have hends := followedBy_of_endsLine hend hrest
    have hline := constraints_complete hts hlegible.1 hends
    obtain ⟨t, ts, rfl, ht⟩ := hts.exists_cons
    have hkinds : ∀ k ∈ expressionKinds, k ∉ lineEnds := by decide
    rw [List.append_assoc]
    exact statements_of_parts (hkinds _ ht) hline ⟨_, endStatement_of_lineEnds hends⟩
      (ih hlegible.2)

end Statements

end Parser

end LinearProgram

import LinearProgram.Language.Parser
import LinearProgram.Proofs.Grammar

/-! # Steps of the parser

What the readers of sums and products do with the next token.
-/

namespace LinearProgram

namespace Parser

variable {α : Type} [Scalar α] {ts rest : List Token} {t : Token} {op : Operator}
  {v : Located α}

theorem sum_eq (ts : List Token) : (sum ts : Reading (Located α) ts) =
    product ts >>= fun first => sumTail ts first := by
  rw [sum]

theorem product_eq (ts : List Token) : (product ts : Reading (Located α) ts) =
    signed ts >>= fun first => productTail ts first := by
  rw [product]

/-- What was read so far, joined to an operand that was read behind it. -/
def join (v : Located α) (op : Operator) {us : List Token} (h : us.length ≤ ts.length)
    (right : Parsed (Located α) us) : Parsed (Located α) ts :=
  ⟨combine v op right.value, right.rest, Nat.lt_of_lt_of_le right.shorter h⟩

section Tails

variable (h : (t :: rest).length < ts.length)

theorem sumTail_nil (h : ([] : List Token).length < ts.length) :
    sumTail ts ⟨v, [], h⟩ = .ok ⟨v, [], h⟩ := by
  rw [sumTail]

theorem sumTail_of_none (ht : additive? t.kind = none) :
    sumTail ts ⟨v, t :: rest, h⟩ = .ok ⟨v, t :: rest, h⟩ := by
  rw [sumTail]
  simp only [ht]

theorem sumTail_of_some (ht : additive? t.kind = some op) : sumTail ts ⟨v, t :: rest, h⟩ =
    product rest >>= fun right =>
      sumTail ts (join v op (Nat.le_of_lt (Nat.lt_of_succ_lt h)) right) := by
  rw [sumTail]
  simp only [ht]
  rfl

theorem productTail_nil (h : ([] : List Token).length < ts.length) :
    productTail ts ⟨v, [], h⟩ = .ok ⟨v, [], h⟩ := by
  rw [productTail]

theorem productTail_of_sign (ht : multiplicative? t.kind = some op) :
    productTail ts ⟨v, t :: rest, h⟩ = signed rest >>= fun right =>
      productTail ts (join v op (Nat.le_of_lt (Nat.lt_of_succ_lt h)) right) := by
  rw [productTail]
  simp only [ht]
  rfl

theorem productTail_of_factor (ht : multiplicative? t.kind = none)
    (hf : beginsFactor t.kind = true) :
    productTail ts ⟨v, t :: rest, h⟩ = signed (t :: rest) >>= fun right =>
      productTail ts (join v .mul (Nat.le_of_lt h) right) := by
  rw [productTail]
  simp only [ht, hf, if_true]
  rfl

theorem productTail_of_none (ht : multiplicative? t.kind = none)
    (hf : beginsFactor t.kind = false) :
    productTail ts ⟨v, t :: rest, h⟩ = .ok ⟨v, t :: rest, h⟩ := by
  rw [productTail]
  simp only [ht, hf, Bool.false_eq_true, if_false]

end Tails

theorem signed_of_minus (ht : t.kind = .minus) :
    (signed (t :: rest) : Reading (Located α) (t :: rest)) = signed rest >>= fun inner =>
      .ok ⟨⟨.neg inner.value.expr, inner.value.stop⟩, inner.rest,
        Nat.lt_succ_of_lt inner.shorter⟩ := by
  rw [signed, if_pos ht]

theorem signed_of_plus (ht : t.kind = .plus) :
    (signed (t :: rest) : Reading (Located α) (t :: rest)) = signed rest >>= fun inner =>
      .ok (inner.within (Nat.le_succ _)) := by
  have hne : t.kind ≠ .minus := by rw [ht]; exact nofun
  rw [signed, if_neg hne, if_pos ht]

theorem signed_of_ne (hminus : t.kind ≠ .minus) (hplus : t.kind ≠ .plus) :
    (signed (t :: rest) : Reading (Located α) (t :: rest)) = operand (t :: rest) := by
  rw [signed, if_neg hminus, if_neg hplus]

theorem operand_of_number {x : α} (ht : t.kind = .number) (hx : number? t.text = some x) :
    (operand (t :: rest) : Reading (Located α) (t :: rest)) =
      .ok ⟨⟨.number x, t.span.stop⟩, rest, Nat.lt_succ_self _⟩ := by
  rw [operand]
  simp only [ht, hx]

theorem operand_of_ident (ht : t.kind = .ident) :
    (operand (t :: rest) : Reading (Located α) (t :: rest)) =
      .ok ⟨⟨.var ⟨t.span, t.text⟩, t.span.stop⟩, rest, Nat.lt_succ_self _⟩ := by
  rw [operand]
  simp only [ht]

/-- Closes a group behind the sum in it. -/
def close (inner : Parsed (Located α) rest) : Reading (Located α) (t :: rest) :=
  match inner with
  | ⟨_, [], _⟩ => .error .unexpectedEof
  | ⟨v, closing :: after, h⟩ =>
    if closing.kind = .rparen then
      .ok ⟨⟨.paren v.expr, closing.span.stop⟩, after,
        Nat.lt_succ_of_lt (Nat.lt_of_succ_lt h)⟩
    else .error (.unexpectedToken (.token .rparen) closing)

theorem operand_of_lparen (ht : t.kind = .lparen) :
    (operand (t :: rest) : Reading (Located α) (t :: rest)) = sum rest >>= close := by
  rw [operand]
  simp only [ht]
  congr 1
  funext inner
  obtain ⟨v, after, h⟩ := inner
  cases after <;> rfl

theorem shorter_cons {α : Type} (t : Token) (inner : Parsed (Located α) rest) :
    inner.rest.length < (t :: rest).length :=
  Nat.lt_succ_of_lt inner.shorter

/-- Goes on behind the right side of a relation. -/
def linksBehind (first : Nat) (lhs : Expr α) (relation : Relation)
    (rhs : Parsed (Located α) rest) : Reading (List (ConstraintStatement α)) (t :: rest) :=
  let link : ConstraintStatement α := ⟨⟨first, rhs.value.stop⟩, lhs, relation, rhs.value.expr⟩
  if (rhs.rest.head?.bind fun next => relation? next.kind).isSome then
    links first rhs.value.expr rhs.rest >>= fun more => .ok ⟨link :: more.value, more.rest,
      Nat.lt_succ_of_lt (Nat.lt_trans more.shorter rhs.shorter)⟩
  else .ok ⟨[link], rhs.rest, shorter_cons t rhs⟩

theorem links_of_some {first : Nat} {lhs : Expr α} {relation : Relation}
    (ht : relation? t.kind = some relation) :
    links first lhs (t :: rest) = sum rest >>= linksBehind first lhs relation := by
  rw [links]
  simp only [ht]
  rfl

theorem chain_of_sum {first : Parsed (Located α) ts} (h : sum ts = .ok first) :
    chain ts = links ((ts.head?.map (·.span.start)).getD 0) first.value.expr first.rest >>=
      fun more => .ok (more.within (Nat.le_of_lt first.shorter)) := by
  rw [chain, h]
  rfl

/-- Goes on behind a chain. -/
def chainsBehind (first : Parsed (List (ConstraintStatement α)) ts) :
    Reading (List (ConstraintStatement α)) ts :=
  match first with
  | ⟨v, [], h⟩ => .ok ⟨v, [], h⟩
  | ⟨v, t :: rest, h⟩ =>
    if t.kind = .comma ∨ t.kind = .semicolon then
      chains rest >>= fun more => .ok ⟨v ++ more.value, more.rest,
        Nat.lt_trans more.shorter (Nat.lt_of_succ_lt h)⟩
    else .ok ⟨v, t :: rest, h⟩

theorem chains_eq (ts : List Token) : (chains ts : Reading (List (ConstraintStatement α)) ts) =
    chain ts >>= chainsBehind := by
  rw [chains]
  congr 1
  funext ⟨v, rest, h⟩
  cases rest <;> rfl

section Statements

theorem objectiveName_of_ne (h : ∀ next ∈ ts[1]?, next.kind ≠ .eq) :
    objectiveName ts = (none, ts) := by
  unfold objectiveName
  split
  · next equals rest =>
    have hne : equals.kind ≠ .eq := h equals rfl
    exact if_neg fun heq => hne heq.2
  · rfl

theorem objective_of_sum {sense : Sense} {start : Nat} {name : Option String} {us : List Token}
    {e : Parsed (Located α) us} (hname : objectiveName (skipColon ts) = (name, us))
    (h : sum us = .ok e) : ∃ hlt, objective sense start ts =
      .ok ⟨⟨⟨start, e.value.stop⟩, sense, name, e.value.expr⟩, e.rest, hlt⟩ := by
  obtain rfl : name = (objectiveName (skipColon ts)).1 := (congrArg Prod.fst hname).symm
  obtain rfl : us = (objectiveName (skipColon ts)).2 := (congrArg Prod.snd hname).symm
  refine ⟨?_, ?_⟩
  · exact Nat.lt_of_lt_of_le e.shorter
      (Nat.le_trans (length_objectiveName_le _) (length_skipColon_le _))
  · rw [objective, h]
    rfl

theorem line_of_keyword {sense : Sense} (h : Grammar.Keyword t.kind sense) :
    (line (t :: rest) : Reading (List (Statement α)) (t :: rest)) =
      objective sense t.span.start rest >>= fun o =>
        .ok ⟨[.objective o.value], o.rest, Nat.lt_succ_of_lt o.shorter⟩ := by
  rw [line]
  generalize t.kind = k at h
  cases h <;> rfl

theorem line_of_not_keyword (h : ∀ sense, ¬ Grammar.Keyword t.kind sense) :
    (line (t :: rest) : Reading (List (Statement α)) (t :: rest)) =
      chains (t :: rest) >>= fun cs => .ok (cs.map (·.map .constraint)) := by
  rw [line]
  dsimp only
  split
  · next ht => exact absurd (by rw [ht]; exact .max) (h .maximize)
  · next ht => exact absurd (by rw [ht]; exact .min) (h .minimize)
  · rfl

theorem statements_of_nil (h : skipLayout ts = []) :
    (statements ts : Except ParseError (List (Statement α))) = .ok [] := by
  rw [statements]
  split
  · rfl
  · next h' => cases h.symm.trans h'

theorem statements_of_eof (h : skipLayout ts = t :: rest) (ht : t.kind = .eof) :
    (statements ts : Except ParseError (List (Statement α))) = .ok [] := by
  rw [statements]
  split
  · rfl
  · next h' =>
    cases h.symm.trans h'
    rw [if_pos ht]

theorem statements_of_line (h : skipLayout ts = t :: rest) (ht : t.kind ≠ .eof) :
    (statements ts : Except ParseError (List (Statement α))) =
      line (t :: rest) >>= fun found => endStatement found.rest >>= fun behind =>
        statements behind.1 >>= fun more => .ok (found.value ++ more) := by
  conv => lhs; rw [statements]
  split
  · next h' => cases h.symm.trans h'
  · next h' =>
    cases h.symm.trans h'
    rw [if_neg ht]

end Statements

end Parser

end LinearProgram

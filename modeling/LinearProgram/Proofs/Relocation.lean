import LinearProgram.Proofs.Grammar

/-! # Moving positions

The grammar asks of positions only where the first token starts and the last one stops. So a
derivation may be moved to another place: the same tokens elsewhere spell the same tree elsewhere.
-/

namespace LinearProgram

/-- Both ends are moved. -/
def Span.relocate (f : ℕ → ℕ) (s : Span) : Span := ⟨f s.start, f s.stop⟩

def Token.relocate (f : ℕ → ℕ) (t : Token) : Token := { t with span := t.span.relocate f }

def Variable.relocate (f : ℕ → ℕ) (v : Variable) : Variable := { v with span := v.span.relocate f }

variable {α : Type}

def Expr.relocate (f : ℕ → ℕ) : Expr α → Expr α
  | number x => number x
  | var v => var (v.relocate f)
  | neg e => neg (e.relocate f)
  | binary left op right => binary (left.relocate f) op (right.relocate f)
  | paren e => paren (e.relocate f)

def ObjectiveStatement.relocate (f : ℕ → ℕ) (o : ObjectiveStatement α) : ObjectiveStatement α :=
  { o with span := o.span.relocate f, expr := o.expr.relocate f }

def ConstraintStatement.relocate (f : ℕ → ℕ) (c : ConstraintStatement α) :
    ConstraintStatement α :=
  { c with span := c.span.relocate f, lhs := c.lhs.relocate f, rhs := c.rhs.relocate f }

namespace Token

variable (f : ℕ → ℕ) (n : ℕ) (t : Token)

@[simp] theorem kind_relocate : (t.relocate f).kind = t.kind := rfl

@[simp] theorem text_relocate : (t.relocate f).text = t.text := rfl

@[simp] theorem span_relocate : (t.relocate f).span = t.span.relocate f := rfl

/-- Moved away and back. -/
@[simp] theorem relocate_add_sub : (t.relocate (· + n)).relocate (· - n) = t := by
  simp [relocate, Span.relocate]

theorem map_relocate_add_sub (ts : List Token) :
    (ts.map (relocate (· + n))).map (relocate (· - n)) = ts := by
  simp [Function.comp_def]

end Token

namespace Grammar

variable [Scalar α] {f : ℕ → ℕ} {level : Level} {ts : List Token} {e lhs : Expr α}
  {cs : List (ConstraintStatement α)} {o : ObjectiveStatement α} {first : ℕ}

theorem start_relocate (h : ts ≠ []) : start (ts.map (Token.relocate f)) = f (start ts) := by
  obtain ⟨t, us, rfl⟩ := List.exists_cons_of_ne_nil h
  rfl

theorem stop_relocate (h : ts ≠ []) : stop (ts.map (Token.relocate f)) = f (stop ts) := by
  rw [stop, stop, List.getLast?_map, List.getLast?_eq_some_getLast h]
  rfl

theorem Spells.relocate (f : ℕ → ℕ) (h : Spells level ts e) :
    Spells level (ts.map (Token.relocate f)) (e.relocate f) := by
  induction h with
  | number ht => exact .number ht
  | name ht => exact .name ht
  | group ho _ hc ih =>
    rw [List.map_cons, List.map_append]
    exact .group ho ih hc
  | unsigned _ ih => exact .unsigned ih
  | minus ht _ ih => exact .minus ht ih
  | plus ht _ ih => exact .plus ht ih
  | factor _ ih => exact .factor ih
  | mul _ ht _ ihl ihr =>
    rw [List.map_append]
    exact .mul ihl ht ihr
  | div _ ht _ ihl ihr =>
    rw [List.map_append]
    exact .div ihl ht ihr
  | beside _ ht _ ihl ihr =>
    rw [List.map_append]
    exact .beside ihl ht ihr
  | term _ ih => exact .term ih
  | add _ ht _ ihl ihr =>
    rw [List.map_append]
    exact .add ihl ht ihr
  | sub _ ht _ ihl ihr =>
    rw [List.map_append]
    exact .sub ihl ht ihr

theorem Links.relocate (f : ℕ → ℕ) (h : Links first lhs ts cs) :
    Links (f first) (lhs.relocate f) (ts.map (Token.relocate f))
      (cs.map (ConstraintStatement.relocate f)) := by
  induction h with
  | @last lhs t relation us rhs ht hus =>
    have hlink : Links (f first) (lhs.relocate f) (t.relocate f :: us.map (Token.relocate f)) _ :=
      .last ht (hus.relocate f)
    rwa [stop_relocate hus.ne_nil] at hlink
  | @more lhs t relation us rhs vs cs ht hus _ ih =>
    have hlinks : Links (f first) (lhs.relocate f) (t.relocate f :: _) _ :=
      .more ht (hus.relocate f) ih
    rwa [stop_relocate hus.ne_nil, ← List.map_append] at hlinks

theorem Chain.relocate (f : ℕ → ℕ) (h : Chain ts cs) :
    Chain (ts.map (Token.relocate f)) (cs.map (ConstraintStatement.relocate f)) := by
  cases h with
  | mk hts hus =>
    have hlinks := hus.relocate f
    rw [← start_relocate (f := f) hts.ne_nil] at hlinks
    rw [List.map_append]
    exact .mk (hts.relocate f) hlinks

theorem ObjectiveLine.relocate (f : ℕ → ℕ) (h : ObjectiveLine ts o) :
    ObjectiveLine (ts.map (Token.relocate f)) (o.relocate f) := by
  cases h with
  | @mk keyword sense colon naming name ts e hkeyword hcolon hnaming hts =>
    have hcolon' : Colon (colon.map (Token.relocate f)) := by
      cases hcolon with
      | none => exact .none
      | some ht => exact .some ht
    have hnaming' : Naming (naming.map (Token.relocate f)) name := by
      cases hnaming with
      | none => exact .none
      | some hname hequals => exact .some hname hequals
    have hline : ObjectiveLine (keyword.relocate f :: _) _ :=
      .mk hkeyword hcolon' hnaming' (hts.relocate f)
    rwa [stop_relocate hts.ne_nil, ← List.map_append, ← List.map_append] at hline

end Grammar

end LinearProgram

import LinearProgram.Language.Program
import LinearProgram.Language.Token
import LinearProgram.Number.Digits
import Mathlib.Data.List.Basic

/-! # The grammar of problem texts

Which lists of tokens are expressions, constraints, objectives and programs, and the tree of each.
Operators of one level join from the left, so the rules for them are recursive on the left. A sign
binds more tightly than a product, and a plus sign leaves nothing in the tree.
-/

namespace LinearProgram

namespace Grammar

variable {α : Type} [Scalar α]

/-- Where the first of these tokens starts. -/
def start (ts : List Token) : Nat := (ts.head?.map (·.span.start)).getD 0

/-- Where the last of these tokens stops. -/
def stop (ts : List Token) : Nat := (ts.getLast?.map (·.span.stop)).getD 0

/-- What a numeral stands for: its digits as a whole number, with a decimal place for each of them
behind the point. -/
def numeral (text : String) : α :=
  OfScientific.ofScientific (Digits.value (text.toList.filter Char.isDigit)) true
    ((text.toList.dropWhile (· ≠ '.')).drop 1).length

/-- The levels of an expression, from the loosest to the tightest. -/
inductive Level where
  | sum
  | product
  | signed
  | operand

/-- The tokens are an expression of this level with this tree. -/
inductive Spells : Level → List Token → Expr α → Prop where
  | number {t} : t.kind = .number → Spells .operand [t] (.number (numeral t.text))
  | name {t} : t.kind = .ident → Spells .operand [t] (.var ⟨t.span, t.text⟩)
  | group {opening ts closing e} : opening.kind = .lparen → Spells .sum ts e →
      closing.kind = .rparen → Spells .operand (opening :: (ts ++ [closing])) (.paren e)
  | unsigned {ts e} : Spells .operand ts e → Spells .signed ts e
  | minus {t ts e} : t.kind = .minus → Spells .signed ts e → Spells .signed (t :: ts) (.neg e)
  | plus {t ts e} : t.kind = .plus → Spells .signed ts e → Spells .signed (t :: ts) e
  | factor {ts e} : Spells .signed ts e → Spells .product ts e
  | mul {ts t us l r} : Spells .product ts l → t.kind = .star → Spells .signed us r →
      Spells .product (ts ++ t :: us) (.binary l .mul r)
  | div {ts t us l r} : Spells .product ts l → t.kind = .slash → Spells .signed us r →
      Spells .product (ts ++ t :: us) (.binary l .div r)
  | beside {ts t us l r} : Spells .product ts l → t.kind = .ident ∨ t.kind = .lparen →
      Spells .operand (t :: us) r → Spells .product (ts ++ t :: us) (.binary l .mul r)
  | term {ts e} : Spells .product ts e → Spells .sum ts e
  | add {ts t us l r} : Spells .sum ts l → t.kind = .plus → Spells .product us r →
      Spells .sum (ts ++ t :: us) (.binary l .add r)
  | sub {ts t us l r} : Spells .sum ts l → t.kind = .minus → Spells .product us r →
      Spells .sum (ts ++ t :: us) (.binary l .sub r)

/-- The relation that a kind of token stands for. -/
inductive Denotes : TokenKind → Relation → Prop where
  | le : Denotes .le .le
  | ge : Denotes .ge .ge
  | eq : Denotes .eq .eq

/-- Relations behind a left side, each with its right side, which is the left side of the next. All
constraints start where the chain does. -/
inductive Links (first : Nat) : Expr α → List Token → List (ConstraintStatement α) → Prop where
  | last {lhs t relation us rhs} : Denotes t.kind relation → Spells .sum us rhs →
      Links first lhs (t :: us) [⟨⟨first, stop us⟩, lhs, relation, rhs⟩]
  | more {lhs t relation us rhs vs cs} : Denotes t.kind relation → Spells .sum us rhs →
      Links first rhs vs cs →
      Links first lhs (t :: (us ++ vs)) (⟨⟨first, stop us⟩, lhs, relation, rhs⟩ :: cs)

/-- A sum and at least one relation behind it. -/
inductive Chain : List Token → List (ConstraintStatement α) → Prop where
  | mk {ts lhs us cs} : Spells .sum ts lhs → Links (start ts) lhs us cs → Chain (ts ++ us) cs

/-- Chains with a comma or a semicolon between each two. -/
inductive ConstraintLine : List Token → List (ConstraintStatement α) → Prop where
  | last {ts cs} : Chain ts cs → ConstraintLine ts cs
  | more {ts cs t us ds} : Chain ts cs → t.kind = .comma ∨ t.kind = .semicolon →
      ConstraintLine us ds → ConstraintLine (ts ++ t :: us) (cs ++ ds)

/-- The keyword of an objective. -/
inductive Keyword : TokenKind → Sense → Prop where
  | max : Keyword .max .maximize
  | min : Keyword .min .minimize

/-- A colon or nothing. -/
inductive Colon : List Token → Prop where
  | none : Colon []
  | some {t} : t.kind = .colon → Colon [t]

/-- A name and an equals sign, or nothing. -/
inductive Naming : List Token → Option String → Prop where
  | none : Naming [] none
  | some {name equals} : name.kind = .ident → equals.kind = .eq →
      Naming [name, equals] (some name.text)

inductive ObjectiveLine : List Token → ObjectiveStatement α → Prop where
  | mk {keyword sense colon naming name ts e} : Keyword keyword.kind sense → Colon colon →
      Naming naming name → Spells .sum ts e →
      ObjectiveLine (keyword :: (colon ++ (naming ++ ts)))
        ⟨⟨keyword.span.start, stop ts⟩, sense, name, e⟩

/-- Line feeds and comments. -/
def IsLayout (t : Token) : Prop := t.kind = .newline ∨ t.kind = .comment

/-- A line feed or a comment comes first, if anything does. -/
def EndsLine : List Token → Prop
  | [] => True
  | t :: _ => IsLayout t

/-- Statements with layout between them. Behind an objective there may be a semicolon, and then the
next statement need not be on a line of its own. -/
inductive Derives : List Token → List (Statement α) → Prop where
  | empty : Derives [] []
  | layout {t ts ss} : IsLayout t → Derives ts ss → Derives (t :: ts) ss
  | objective {ts o us ss} : ObjectiveLine ts o → EndsLine us → Derives us ss →
      Derives (ts ++ us) (.objective o :: ss)
  | closedObjective {ts o t us ss} : ObjectiveLine ts o → t.kind = .semicolon → Derives us ss →
      Derives (ts ++ t :: us) (.objective o :: ss)
  | constraints {ts cs us ss} : ConstraintLine ts cs → EndsLine us → Derives us ss →
      Derives (ts ++ us) (cs.map .constraint ++ ss)

section Tokens

variable {level : Level} {t : Token} {ts us : List Token} {e : Expr α}

theorem stop_append (h : us ≠ []) : stop (ts ++ us) = stop us := by
  rw [stop, stop, List.getLast?_append_of_ne_nil _ h]

theorem stop_cons (h : us ≠ []) : stop (t :: us) = stop us := by
  rw [← List.singleton_append, stop_append h]

theorem stop_append_cons (h : us ≠ []) : stop (ts ++ t :: us) = stop us := by
  rw [stop_append (List.cons_ne_nil _ _), stop_cons h]

theorem stop_cons_concat (closing : Token) : stop (t :: (ts ++ [closing])) = closing.span.stop := by
  rw [← List.cons_append, stop_append (List.cons_ne_nil _ _)]
  rfl

theorem Spells.ne_nil (h : Spells level ts e) : ts ≠ [] := by
  induction h with
  | unsigned _ ih => exact ih
  | factor _ ih => exact ih
  | term _ ih => exact ih
  | _ => simp

theorem Spells.kind_ne_sign (h : Spells .operand (t :: ts) e) :
    t.kind ≠ .minus ∧ t.kind ≠ .plus := by
  cases h with
  | number ht => simp [ht]
  | name ht => simp [ht]
  | group ht _ _ => simp [ht]

/-- What begins with a name or a parenthesis has no sign in front. -/
theorem Spells.operand_of_kind (h : Spells .signed (t :: ts) e)
    (ht : t.kind = .ident ∨ t.kind = .lparen) : Spells .operand (t :: ts) e := by
  cases h with
  | unsigned h => exact h
  | minus hk _ => simp [hk] at ht
  | plus hk _ => simp [hk] at ht

/-- The kinds of the tokens in expressions. -/
def expressionKinds : List TokenKind :=
  [.number, .ident, .plus, .minus, .star, .slash, .lparen, .rparen]

theorem Spells.kind_mem (h : Spells level ts e) : ∀ t ∈ ts, t.kind ∈ expressionKinds := by
  induction h with
  | number h => simp [h, expressionKinds]
  | name h => simp [h, expressionKinds]
  | group ho _ hc ih =>
    rw [List.forall_mem_cons, List.forall_mem_append, List.forall_mem_singleton]
    exact ⟨by simp [ho, expressionKinds], ih, by simp [hc, expressionKinds]⟩
  | unsigned _ ih => exact ih
  | minus h _ ih => exact List.forall_mem_cons.mpr ⟨by simp [h, expressionKinds], ih⟩
  | plus h _ ih => exact List.forall_mem_cons.mpr ⟨by simp [h, expressionKinds], ih⟩
  | factor _ ih => exact ih
  | term _ ih => exact ih
  | beside _ _ _ ihl ihr => exact List.forall_mem_append.mpr ⟨ihl, ihr⟩
  | mul _ h _ ihl ihr | div _ h _ ihl ihr | add _ h _ ihl ihr | sub _ h _ ihl ihr =>
    rw [List.forall_mem_append, List.forall_mem_cons]
    exact ⟨ihl, by simp [h, expressionKinds], ihr⟩

theorem Spells.exists_cons (h : Spells level ts e) :
    ∃ t us, ts = t :: us ∧ t.kind ∈ expressionKinds := by
  obtain ⟨t, us, rfl⟩ := List.exists_cons_of_ne_nil h.ne_nil
  exact ⟨t, us, rfl, h.kind_mem t (.head us)⟩

theorem start_append (h : ts ≠ []) : start (ts ++ us) = start ts := by
  obtain ⟨t, ts, rfl⟩ := List.exists_cons_of_ne_nil h
  rfl

end Tokens

section FirstTokens

variable {ts : List Token} {cs : List (ConstraintStatement α)} {o : ObjectiveStatement α}

theorem Links.exists_cons {first : Nat} {lhs : Expr α} (h : Links first lhs ts cs) :
    ∃ t us relation, ts = t :: us ∧ Denotes t.kind relation := by
  cases h with
  | last ht _ => exact ⟨_, _, _, rfl, ht⟩
  | more ht _ _ => exact ⟨_, _, _, rfl, ht⟩

theorem Chain.exists_cons (h : Chain ts cs) : ∃ t us, ts = t :: us ∧ t.kind ∈ expressionKinds := by
  cases h with
  | mk hts _ =>
    obtain ⟨t, us, rfl, ht⟩ := hts.exists_cons
    exact ⟨t, _, rfl, ht⟩

theorem ConstraintLine.exists_cons (h : ConstraintLine ts cs) :
    ∃ t us, ts = t :: us ∧ t.kind ∈ expressionKinds := by
  cases h with
  | last hts => exact hts.exists_cons
  | more hts _ _ =>
    obtain ⟨t, us, rfl, ht⟩ := hts.exists_cons
    exact ⟨t, _, rfl, ht⟩

theorem ObjectiveLine.exists_cons (h : ObjectiveLine ts o) :
    ∃ t us sense, ts = t :: us ∧ Keyword t.kind sense := by
  cases h with
  | mk hkeyword _ _ _ => exact ⟨_, _, _, rfl, hkeyword⟩

end FirstTokens

section Kinds

variable {ts : List Token} {e : Expr α} {cs : List (ConstraintStatement α)}

/-- The kinds of the tokens in statements. -/
def statementKinds : List TokenKind :=
  [.min, .max, .le, .ge, .eq, .colon, .comma, .semicolon] ++ expressionKinds

theorem Spells.kind_mem_statementKinds {level : Level} (h : Spells level ts e) :
    ∀ t ∈ ts, t.kind ∈ statementKinds := by
  intro t ht
  exact List.mem_append_right _ (h.kind_mem t ht)

theorem Denotes.mem_statementKinds {k : TokenKind} {relation : Relation} (h : Denotes k relation) :
    k ∈ statementKinds := by
  cases h <;> decide

theorem Links.kind_mem {first : Nat} (h : Links first e ts cs) :
    ∀ t ∈ ts, t.kind ∈ statementKinds := by
  induction h with
  | last ht hus =>
    exact List.forall_mem_cons.mpr ⟨ht.mem_statementKinds, hus.kind_mem_statementKinds⟩
  | more ht hus _ ih =>
    rw [List.forall_mem_cons, List.forall_mem_append]
    exact ⟨ht.mem_statementKinds, hus.kind_mem_statementKinds, ih⟩

theorem Chain.kind_mem (h : Chain ts cs) : ∀ t ∈ ts, t.kind ∈ statementKinds := by
  cases h with
  | mk hts hus => exact List.forall_mem_append.mpr ⟨hts.kind_mem_statementKinds, hus.kind_mem⟩

theorem ConstraintLine.kind_mem (h : ConstraintLine ts cs) :
    ∀ t ∈ ts, t.kind ∈ statementKinds := by
  induction h with
  | last hts => exact hts.kind_mem
  | more hts ht _ ih =>
    rw [List.forall_mem_append, List.forall_mem_cons]
    refine ⟨hts.kind_mem, ?_, ih⟩
    rcases ht with ht | ht <;> rw [ht] <;> decide

theorem ObjectiveLine.kind_mem {o : ObjectiveStatement α} (h : ObjectiveLine ts o) :
    ∀ t ∈ ts, t.kind ∈ statementKinds := by
  cases h with
  | mk hkeyword hcolon hnaming hts =>
    rw [List.forall_mem_cons, List.forall_mem_append, List.forall_mem_append]
    refine ⟨?_, ?_, ?_, hts.kind_mem_statementKinds⟩
    · generalize Token.kind _ = k at hkeyword
      cases hkeyword <;> decide
    · cases hcolon with
      | none => simp
      | some ht => simp [ht, statementKinds]
    · cases hnaming with
      | none => simp
      | some hname hequals => simp [hname, hequals, statementKinds, expressionKinds]

theorem ne_of_mem_statementKinds {k : TokenKind} (h : k ∈ statementKinds) :
    k ≠ .eof ∧ k ≠ .error := by
  revert k
  decide

theorem Chain.kind_ne_eof (h : Chain ts cs) : ∀ t ∈ ts, t.kind ≠ .eof := fun t ht =>
  (ne_of_mem_statementKinds (h.kind_mem t ht)).1

theorem ConstraintLine.kind_ne_eof (h : ConstraintLine ts cs) : ∀ t ∈ ts, t.kind ≠ .eof :=
  fun t ht => (ne_of_mem_statementKinds (h.kind_mem t ht)).1

theorem ObjectiveLine.kind_ne_eof {o : ObjectiveStatement α} (h : ObjectiveLine ts o) :
    ∀ t ∈ ts, t.kind ≠ .eof := fun t ht =>
  (ne_of_mem_statementKinds (h.kind_mem t ht)).1

theorem IsLayout.kind_ne {t : Token} (h : IsLayout t) : t.kind ≠ .eof ∧ t.kind ≠ .error := by
  rcases h with h | h <;> simp [h]

/-- No token of an accepted text is an error. -/
theorem Derives.kind_ne_error {ss : List (Statement α)} (h : Derives ts ss) :
    ∀ t ∈ ts, t.kind ≠ .error := by
  induction h with
  | empty => exact nofun
  | layout ht _ ih => exact List.forall_mem_cons.mpr ⟨ht.kind_ne.2, ih⟩
  | objective hts _ _ ih =>
    rw [List.forall_mem_append]
    exact ⟨fun t ht => (ne_of_mem_statementKinds (hts.kind_mem t ht)).2, ih⟩
  | closedObjective hts ht _ ih =>
    rw [List.forall_mem_append, List.forall_mem_cons]
    exact ⟨fun t ht => (ne_of_mem_statementKinds (hts.kind_mem t ht)).2, by simp [ht], ih⟩
  | constraints hts _ _ ih =>
    rw [List.forall_mem_append]
    exact ⟨fun t ht => (ne_of_mem_statementKinds (hts.kind_mem t ht)).2, ih⟩

end Kinds

end Grammar

end LinearProgram

import LinearProgram.Language.Lexer
import LinearProgram.Language.ParseError
import LinearProgram.Language.Program
import LinearProgram.Number.Digits
import LinearProgram.Parsed

/-! # Parsing problem texts

A program is a list of lines. A line holds one objective or several constraints; a chain of
relations such as `0 <= x <= 4` stands for one constraint per relation. Products may be written
without a sign, and bind as tightly as those with one.
-/

namespace LinearProgram

namespace Parser

variable {α : Type} [Scalar α]

/-- An expression and the end of its last token. -/
structure Located (α : Type) where
  expr : Expr α
  stop : Nat
  deriving DecidableEq, Repr

abbrev Reading (β : Type) (ts : List Token) := Except ParseError (Parsed β ts)

/-- Digits without their point, and how many of them stand behind it. -/
def decimalDigits? (text : List Char) : Option (List Char × Nat) :=
  let whole := text.takeWhile Char.isDigit
  match text.dropWhile Char.isDigit with
  | [] => if whole.isEmpty then none else some (whole, 0)
  | '.' :: fraction =>
    if fraction.all Char.isDigit && !(whole.isEmpty && fraction.isEmpty) then
      some (whole ++ fraction, fraction.length)
    else none
  | _ => none

/-- The number that a token spells. -/
def number? (text : String) : Option α :=
  (decimalDigits? text.toList).map fun (digits, places) =>
    OfScientific.ofScientific (Digits.value digits) true places

def additive? : TokenKind → Option Operator
  | .plus => some .add
  | .minus => some .sub
  | _ => none

def multiplicative? : TokenKind → Option Operator
  | .star => some .mul
  | .slash => some .div
  | _ => none

/-- A factor may follow another without a sign if it begins with a name or a parenthesis. -/
def beginsFactor : TokenKind → Bool
  | .ident | .lparen => true
  | _ => false

def relation? : TokenKind → Option Relation
  | .le => some .le
  | .ge => some .ge
  | .eq => some .eq
  | _ => none

def combine (left : Located α) (op : Operator) (right : Located α) : Located α :=
  ⟨.binary left.expr op right.expr, right.stop⟩

mutual

/-- Terms joined by plus and minus, from the left. -/
def sum (ts : List Token) : Reading (Located α) ts := do
  let first ← product ts
  have := first.shorter
  sumTail ts first
termination_by 4 * ts.length + 3

/-- Joins further terms to what was read so far. -/
def sumTail (ts : List Token) (left : Parsed (Located α) ts) : Reading (Located α) ts :=
  have hleft := left.shorter
  match h : left.rest with
  | [] => .ok left
  | t :: rest =>
    have hrest : rest.length < left.rest.length := by simp [h]
    match additive? t.kind with
    | none => .ok left
    | some op => do
      let right ← product rest
      have := right.shorter
      sumTail ts ⟨combine left.value op right.value, right.rest, by omega⟩
termination_by 4 * left.rest.length + 3

/-- Factors joined by `*`, by `/` or by nothing, from the left. -/
def product (ts : List Token) : Reading (Located α) ts := do
  let first ← signed ts
  have := first.shorter
  productTail ts first
termination_by 4 * ts.length + 2

def productTail (ts : List Token) (left : Parsed (Located α) ts) : Reading (Located α) ts :=
  have hleft := left.shorter
  match h : left.rest with
  | [] => .ok left
  | t :: rest =>
    have hrest : rest.length < left.rest.length := by simp [h]
    match multiplicative? t.kind with
    | some op => do
      let right ← signed rest
      have := right.shorter
      productTail ts ⟨combine left.value op right.value, right.rest, by omega⟩
    | none =>
      if beginsFactor t.kind then do
        let right ← signed left.rest
        have := right.shorter
        productTail ts ⟨combine left.value .mul right.value, right.rest, by omega⟩
      else .ok left
termination_by 4 * left.rest.length + 2

/-- An operand behind any number of signs. A plus leaves no trace. -/
def signed (ts : List Token) : Reading (Located α) ts :=
  match ts with
  | [] => operand []
  | t :: rest =>
    if t.kind = .minus then do
      let inner ← signed rest
      .ok ⟨⟨.neg inner.value.expr, inner.value.stop⟩, inner.rest, Nat.lt_succ_of_lt inner.shorter⟩
    else if t.kind = .plus then do
      let inner ← signed rest
      .ok (inner.within (Nat.le_succ _))
    else operand (t :: rest)
termination_by 4 * ts.length + 1

/-- A number, a name or a sum in parentheses. -/
def operand (ts : List Token) : Reading (Located α) ts :=
  match ts with
  | [] => .error .unexpectedEof
  | t :: rest =>
    match t.kind with
    | .number =>
      match number? t.text with
      | some x => .ok ⟨⟨.number x, t.span.stop⟩, rest, Nat.lt_succ_self _⟩
      | none => .error (.invalidNumber t.text)
    | .ident => .ok ⟨⟨.var ⟨t.span, t.text⟩, t.span.stop⟩, rest, Nat.lt_succ_self _⟩
    | .lparen => do
      let inner ← sum rest
      have hinner := inner.shorter
      match h : inner.rest with
      | [] => .error .unexpectedEof
      | closing :: after =>
        if closing.kind = .rparen then
          .ok ⟨⟨.paren inner.value.expr, closing.span.stop⟩, after, by
            simp only [h, List.length_cons] at hinner ⊢
            omega⟩
        else .error (.unexpectedToken (.token .rparen) closing)
    | .eof => .error .unexpectedEof
    | _ => .error (.unexpectedToken .operand t)
termination_by 4 * ts.length

end

/-- Relations behind a left side, at least one. Each right side is the next one's left side. -/
def links (start : Nat) (lhs : Expr α) (ts : List Token) :
    Reading (List (ConstraintStatement α)) ts :=
  match ts with
  | [] => .error .unexpectedEof
  | t :: rest =>
    match relation? t.kind with
    | none => .error (.unexpectedToken .relation t)
    | some relation => do
      let rhs ← sum rest
      have hrhs := rhs.shorter
      let link : ConstraintStatement α := ⟨⟨start, rhs.value.stop⟩, lhs, relation, rhs.value.expr⟩
      if (rhs.rest.head?.bind fun next => relation? next.kind).isSome then
        let more ← links start rhs.value.expr rhs.rest
        .ok ⟨link :: more.value, more.rest, by
          have := more.shorter
          simp only [List.length_cons]
          omega⟩
      else .ok ⟨[link], rhs.rest, Nat.lt_succ_of_lt hrhs⟩
termination_by ts.length

/-- One constraint for each relation of a chain. -/
def chain (ts : List Token) : Reading (List (ConstraintStatement α)) ts := do
  let first ← sum ts
  let start := (ts.head?.map (·.span.start)).getD 0
  let more ← links start first.value.expr first.rest
  .ok (more.within (Nat.le_of_lt first.shorter))

/-- Chains with commas or semicolons between them. -/
def chains (ts : List Token) : Reading (List (ConstraintStatement α)) ts := do
  let first ← chain ts
  have hfirst := first.shorter
  match h : first.rest with
  | [] => .ok first
  | t :: rest =>
    have : rest.length < ts.length := by
      simp only [h, List.length_cons] at hfirst
      omega
    if t.kind = .comma ∨ t.kind = .semicolon then
      let more ← chains rest
      .ok ⟨first.value ++ more.value, more.rest, Nat.lt_trans more.shorter this⟩
    else .ok first
termination_by ts.length

/-- Passes over a colon. -/
def skipColon : List Token → List Token
  | t :: rest => if t.kind = .colon then rest else t :: rest
  | [] => []

/-- The name of an objective, if a name and an equals sign come first, and what follows. -/
def objectiveName : List Token → Option String × List Token
  | t :: e :: rest =>
    if t.kind = .ident ∧ e.kind = .eq then (some t.text, rest) else (none, t :: e :: rest)
  | ts => (none, ts)

theorem length_skipColon_le (ts : List Token) : (skipColon ts).length ≤ ts.length := by
  unfold skipColon
  split
  · split <;> simp
  · simp

theorem length_objectiveName_le (ts : List Token) : (objectiveName ts).2.length ≤ ts.length := by
  unfold objectiveName
  split
  · split
    · simp only [List.length_cons]
      omega
    · simp
  · simp

/-- An objective behind its keyword. -/
def objective (sense : Sense) (start : Nat) (ts : List Token) :
    Reading (ObjectiveStatement α) ts := do
  let named := objectiveName (skipColon ts)
  let e ← sum named.2
  .ok ⟨⟨⟨start, e.value.stop⟩, sense, named.1, e.value.expr⟩, e.rest,
    Nat.lt_of_lt_of_le e.shorter
      (Nat.le_trans (length_objectiveName_le _) (length_skipColon_le _))⟩

/-- The statements of one line. -/
def line (ts : List Token) : Reading (List (Statement α)) ts :=
  match ts with
  | [] => .error .unexpectedEof
  | t :: rest =>
    let behind (sense : Sense) : Reading (List (Statement α)) (t :: rest) := do
      let o ← objective sense t.span.start rest
      .ok ⟨[.objective o.value], o.rest, Nat.lt_succ_of_lt o.shorter⟩
    match t.kind with
    | .max => behind .maximize
    | .min => behind .minimize
    | _ => do
      let cs ← chains (t :: rest)
      .ok (cs.map (·.map .constraint))

/-- What follows the end of a statement: a line feed, a comment and the end of the text stay, a
semicolon is passed over. -/
def endStatement (ts : List Token) :
    Except ParseError { rest : List Token // rest.length ≤ ts.length } :=
  match ts with
  | [] => .ok ⟨[], Nat.le_refl _⟩
  | t :: rest =>
    match t.kind with
    | .newline | .comment | .eof => .ok ⟨t :: rest, Nat.le_refl _⟩
    | .semicolon => .ok ⟨rest, Nat.le_succ _⟩
    | _ => .error (.unexpectedToken .endOfLine t)

def isLayout (t : Token) : Bool := t.kind == .newline || t.kind == .comment

/-- Passes over line feeds and comments. -/
def skipLayout (ts : List Token) : List Token := ts.dropWhile isLayout

theorem length_skipLayout_le (ts : List Token) : (skipLayout ts).length ≤ ts.length :=
  (List.dropWhile_sublist isLayout).length_le

def statements (ts : List Token) : Except ParseError (List (Statement α)) :=
  have hskip := length_skipLayout_le ts
  match h : skipLayout ts with
  | [] => .ok []
  | t :: rest =>
    if t.kind = .eof then .ok []
    else do
      let found ← line (t :: rest)
      have hfound := found.shorter
      let behind ← endStatement found.rest
      have : behind.1.length < ts.length := by
        have := behind.2
        rw [h] at hskip
        omega
      let more ← statements behind.1
      .ok (found.value ++ more)
termination_by ts.length

/-- A single chain with nothing but layout around it. -/
def loneChain (ts : List Token) : Except ParseError (List (ConstraintStatement α)) := do
  let found ← chain (skipLayout ts)
  match skipLayout found.rest with
  | [] => .error .unexpectedEof
  | t :: _ => if t.kind = .eof then .ok found.value else .error (.unexpectedToken (.token .eof) t)

end Parser

variable {α : Type} [Scalar α]

/-- The program that a text spells. -/
def Program.parse (source : String) : Except ParseError (Program α) :=
  (Parser.statements (tokenize source)).map Program.mk

/-- The constraints that a single chain such as `y >= 2x + 5` spells. -/
def ConstraintStatement.parse (source : String) :
    Except ParseError (List (ConstraintStatement α)) :=
  Parser.loneChain (tokenize source)

end LinearProgram

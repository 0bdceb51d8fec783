import LinearProgram.Language.Token
import LinearProgram.Language.Alphabet

/-! # Cutting a text into tokens

Blanks separate tokens, a line feed is a token of its own, and every other character belongs to one:
a character that begins nothing is an error token by itself. The longest token wins.
-/

namespace LinearProgram

/-- A position in a source, in bytes, and what follows it. -/
structure Cursor where
  position : Nat
  rest : List Char
  deriving DecidableEq, Repr

namespace Lexer

def isBlank (c : Char) : Bool := c = ' ' || c = '\t' || c = '\r'

def byteLength : List Char → Nat
  | [] => 0
  | c :: rest => c.utf8Size + byteLength rest

/-- The number of characters at the front that pass a test. -/
def run (p : Char → Bool) (cs : List Char) : Nat := (cs.takeWhile p).length

/-- The number of characters of a decimal part: a point, and at least one digit. -/
def decimalPart : List Char → Nat
  | '.' :: cs => if run Char.isDigit cs = 0 then 0 else run Char.isDigit cs + 1
  | _ => 0

/-- Keywords are recognized in any case. -/
def wordKind (word : List Char) : TokenKind :=
  let lower := String.ofList (word.map Char.toLower)
  if lower ∈ ["max", "maximize", "maximise"] then .max
  else if lower ∈ ["min", "minimize", "minimise"] then .min
  else .ident

/-- A comment runs up to the end of its line. -/
def comment (cs : List Char) : TokenKind × Nat := (.comment, run (· != '\n') cs)

/-- A relation, with an equals sign behind it if there is one. -/
def relation (kind : TokenKind) (cs : List Char) : TokenKind × Nat :=
  (kind, if cs.head? = some '=' then 1 else 0)

/-- An equals sign may begin `=<`, `=>` and `==`. -/
def equality (cs : List Char) : TokenKind × Nat :=
  match cs.head? with
  | some '<' => (.le, 1)
  | some '>' => (.ge, 1)
  | some '=' => (.eq, 1)
  | _ => (.eq, 0)

/-- The kind of the token that begins with a character, and how many more characters it takes of
those that follow. Strict relations read as the ones that include equality. -/
def lexeme (c : Char) (cs : List Char) : TokenKind × Nat :=
  match c with
  | '\n' => (.newline, 0)
  | '#' => comment cs
  | '/' => if cs.head? = some '/' then comment cs else (.slash, 0)
  | '+' => (.plus, 0)
  | '-' => (.minus, 0)
  | '*' | '·' => (.star, 0)
  | ':' => (.colon, 0)
  | ',' => (.comma, 0)
  | ';' => (.semicolon, 0)
  | '(' => (.lparen, 0)
  | ')' => (.rparen, 0)
  | '≤' => (.le, 0)
  | '≥' => (.ge, 0)
  | '<' => relation .le cs
  | '>' => relation .ge cs
  | '=' => equality cs
  | '.' => if run Char.isDigit cs = 0 then (.error, 0) else (.number, run Char.isDigit cs)
  | _ =>
    if c.isDigit then
      (.number, run Char.isDigit cs + decimalPart (cs.drop (run Char.isDigit cs)))
    else if Alphabet.beginsName c then
      let n := run Alphabet.continuesName cs
      (wordKind (c :: cs.take n), n)
    else (.error, 0)

end Lexer

namespace Cursor

/-- Passes over blanks. -/
def skipBlanks (c : Cursor) : Cursor :=
  ⟨c.position + Lexer.byteLength (c.rest.takeWhile Lexer.isBlank), c.rest.dropWhile Lexer.isBlank⟩

/-- The next token and where it ends, unless only blanks are left. -/
def next? (c : Cursor) : Option (Token × Cursor) :=
  let start := c.skipBlanks.position
  match c.skipBlanks.rest with
  | [] => none
  | first :: rest =>
    let (kind, more) := Lexer.lexeme first rest
    let taken := first :: rest.take more
    let stop := start + Lexer.byteLength taken
    some (⟨kind, ⟨start, stop⟩, String.ofList taken⟩, ⟨stop, rest.drop more⟩)

/-- The empty token at the end of the source. -/
def eof (c : Cursor) : Token :=
  ⟨.eof, ⟨c.skipBlanks.position, c.skipBlanks.position⟩, ""⟩

/-- The next token, which is the end of the source again and again once it is reached. -/
def next (c : Cursor) : Token × Cursor := c.next?.getD (c.eof, c.skipBlanks)

theorem length_next?_lt {c after : Cursor} {token : Token} (h : c.next? = some (token, after)) :
    after.rest.length < c.rest.length := by
  have hle : c.skipBlanks.rest.length ≤ c.rest.length := (List.dropWhile_sublist _).length_le
  unfold next? at h
  dsimp only at h
  split at h
  · simp at h
  · next first rest hrest =>
    rw [hrest] at hle
    cases h
    simp only [List.length_drop, List.length_cons] at hle ⊢
    omega

/-- All tokens, the end of the source last. -/
def tokens (c : Cursor) : List Token :=
  match h : c.next? with
  | none => [c.eof]
  | some (token, after) =>
    have := length_next?_lt h
    token :: after.tokens
termination_by c.rest.length

end Cursor

/-- The tokens of a source text. -/
def tokenize (source : String) : List Token := Cursor.tokens ⟨0, source.toList⟩

end LinearProgram

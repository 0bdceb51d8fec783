/-! # Tokens

The words of the problem language, each with the bytes of the source it stands for.
-/

namespace LinearProgram

/-- A range of bytes of a source text. -/
structure Span where
  start : Nat
  stop : Nat
  deriving DecidableEq, Repr

namespace Span

/-- The least span that covers both. -/
def merge (a b : Span) : Span := ⟨min a.start b.start, max a.stop b.stop⟩

def text (s : Span) : String :=
  "Span \x7b start: " ++ toString s.start ++ ", end: " ++ toString s.stop ++ " \x7d"

end Span

inductive TokenKind where
  | min
  | max
  | ident
  | number
  | plus
  | minus
  | star
  | slash
  | le
  | ge
  | eq
  | colon
  | comma
  | semicolon
  | lparen
  | rparen
  | newline
  | comment
  | eof
  | error
  deriving DecidableEq, Repr

namespace TokenKind

def isRelation : TokenKind → Bool
  | le | ge | eq => true
  | _ => false

def name : TokenKind → String
  | min => "Min"
  | max => "Max"
  | ident => "Ident"
  | number => "Number"
  | plus => "Plus"
  | minus => "Minus"
  | star => "Star"
  | slash => "Slash"
  | le => "Le"
  | ge => "Ge"
  | eq => "Eq"
  | colon => "Colon"
  | comma => "Comma"
  | semicolon => "Semicolon"
  | lparen => "LParen"
  | rparen => "RParen"
  | newline => "Newline"
  | comment => "Comment"
  | eof => "Eof"
  | error => "Error"

end TokenKind

structure Token where
  kind : TokenKind
  span : Span
  text : String
  deriving DecidableEq, Repr

end LinearProgram

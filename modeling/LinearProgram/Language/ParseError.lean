import LinearProgram.Language.Token

/-! # Parse errors -/

namespace LinearProgram

/-- What a parser looked for where it failed. -/
inductive Expectation where
  | token (kind : TokenKind)
  | endOfLine
  | relation
  | operand
  deriving DecidableEq, Repr

inductive ParseError where
  | unexpectedToken (expected : Expectation) (found : Token)
  | unexpectedEof
  | invalidNumber (text : String)
  deriving DecidableEq, Repr

namespace Expectation

def text : Expectation → String
  | token kind => kind.name
  | endOfLine => "end of line"
  | relation => "<=, >= or ="
  | operand => "number, variable or ("

end Expectation

/-- The token as an error message names it. -/
def Token.description (t : Token) : String :=
  match t.kind with
  | .eof => "end of input"
  | .newline => "end of line"
  | _ => "'" ++ t.text ++ "'"

namespace ParseError

def message : ParseError → String
  | unexpectedToken expected found =>
    "Unexpected token: expected " ++ expected.text ++ ", found " ++ found.description ++
      " at position " ++ found.span.text
  | unexpectedEof => "Unexpected end of input"
  | invalidNumber text => "Invalid number: " ++ text

end ParseError

end LinearProgram

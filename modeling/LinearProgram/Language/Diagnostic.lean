import LinearProgram.Language.Compile

/-! # Diagnostics

What an editor marks in a problem text: every character that begins no token, or else the one error
that keeps the text from compiling.
-/

namespace LinearProgram

structure Diagnostic where
  span : Span
  message : String
  deriving DecidableEq, Repr

namespace Diagnostic

/-- The mark of an error token. -/
def ofToken? (t : Token) : Option Diagnostic :=
  if t.kind = .error then some ⟨t.span, "Unexpected character '" ++ t.text ++ "'"⟩ else none

/-- Only an unexpected token has a place of its own; other errors mark the whole source. -/
def ofError (source : String) (e : CompileError Float) : Diagnostic :=
  match e with
  | .parse (.unexpectedToken _ found) => ⟨found.span, e.message⟩
  | _ => ⟨⟨0, source.utf8ByteSize⟩, e.message⟩

end Diagnostic

def diagnostics (source : String) : List Diagnostic :=
  match (tokenize source).filterMap Diagnostic.ofToken? with
  | [] =>
    match Declaration.inferred.compileSource source with
    | .ok _ => []
    | .error e => [.ofError source e]
  | marks => marks

end LinearProgram

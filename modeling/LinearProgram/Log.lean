import LinearProgram.Number.Scalar

/-! # Log entries

Remarks a solve makes for whoever debugs it, apart from its trace.
-/

namespace LinearProgram

namespace Log

inductive Level where
  | trace
  | debug
  | warn
  deriving DecidableEq, Repr

inductive Value (α : Type) where
  | number (x : α)
  | count (n : Nat)
  | flag (b : Bool)
  | text (s : String)
  deriving DecidableEq, Repr

structure Entry (α : Type) where
  level : Level
  message : String
  fields : List (String × Value α)
  deriving DecidableEq, Repr

def debug {α : Type} (message : String) (fields : List (String × Value α)) : Entry α :=
  ⟨.debug, message, fields⟩

def Level.text : Level → String
  | .trace => "TRACE"
  | .debug => "DEBUG"
  | .warn => "WARN"

end Log

end LinearProgram

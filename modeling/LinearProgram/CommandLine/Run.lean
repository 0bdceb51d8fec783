import LinearProgram.CommandLine.Arguments
import LinearProgram.CommandLine.Report
import LinearProgram.Language.Compile
import LinearProgram.Shape.Response

/-! # Running a command

A command, the source it names and what comes out: text for both streams and an exit status, which
is zero if the answer is an optimum or a feasible point.
-/

namespace LinearProgram

namespace CommandLine

inductive Failure where
  | unreadable (file cause : String)
  | malformedJson
  | uncompilable (file : String) (reason : CompileError Float)
  | invalid (reason : ValidationError)
  | pointLength (found expected : Nat)

namespace Failure

/-- What failed. -/
def summary : Failure → String
  | unreadable file _ => "Error reading " ++ file
  | malformedJson => "Invalid JSON problem"
  | uncompilable file _ => "Cannot compile " ++ file
  | invalid _ => "Problem validation failed"
  | pointLength found expected =>
    "Point has " ++ toString found ++ " values, the problem has " ++ toString expected ++
      " variables"

/-- Why it failed, from the outermost cause to the innermost. -/
def causes : Failure → List String
  | unreadable _ cause => [cause]
  | uncompilable _ reason =>
    match reason with
    | .parse inner => [reason.message, inner.message]
    | _ => [reason.message]
  | invalid reason => [reason.message]
  | malformedJson | pointLength .. => []

/-- Several causes are numbered. -/
def causesText : List String → String
  | [] => ""
  | [cause] => "\n\nCaused by:\n    " ++ cause
  | causes =>
    "\n\nCaused by:" ++ String.join (causes.zipIdx.map fun (cause, i) =>
      "\n" ++ Text.padLeft 5 (toString i) ++ ": " ++ cause)

def text (f : Failure) : String := "Error: " ++ f.summary ++ causesText f.causes ++ "\n"

end Failure

structure Outcome where
  exit : Nat
  output : String
  errors : String
  deriving DecidableEq, Repr

/-- Lines that were printed, and the verdict or the failure that came after them. -/
structure Answer where
  lines : List String
  verdict : Except Failure Bool

def Answer.failed (f : Failure) : Answer := ⟨[], .error f⟩

def Answer.outcome (a : Answer) : Outcome :=
  let output := String.join (a.lines.map (· ++ "\n"))
  match a.verdict with
  | .ok true => ⟨0, output, ""⟩
  | .ok false => ⟨1, output, ""⟩
  | .error f => ⟨1, output, f.text⟩

/-- A problem and the names of its variables. -/
structure Input where
  names : List String
  problem : Problem Float
  deriving DecidableEq, Repr

/-- The characters of white space. -/
def isSpace (c : Char) : Bool :=
  let n := c.toNat
  decide (9 ≤ n ∧ n ≤ 13) || decide (0x2000 ≤ n ∧ n ≤ 0x200A) ||
    [0x20, 0x85, 0xA0, 0x1680, 0x2028, 0x2029, 0x202F, 0x205F, 0x3000].contains n

/-- A source is JSON if it begins with a brace, and a problem text otherwise. -/
def Input.load (file source : String) : Except Failure Input :=
  if (source.toList.dropWhile isSpace).head? = some '\x7b' then
    match Problem.ofRequest source with
    | .ok p => .ok ⟨variableNames p.variableCount, p⟩
    | .error _ => .error .malformedJson
  else
    match Declaration.inferred.compileSource source with
    | .ok c => .ok ⟨c.names, c.problem⟩
    | .error e => .error (.uncompilable file e)

def jsonReport (j : Json) : List String := [j.pretty 0]

def answerGraphical (input : Input) (format : Format) (tolerance : Float) : Answer :=
  match input.problem.solveByCorners tolerance with
  | .error e => .failed (.invalid e)
  | .ok s =>
    ⟨match format with
     | .json => jsonReport (CornerResponse.ofSolution s).toJson
     | .text => cornerReport input.names s,
     .ok (s.status == .optimal)⟩

def answerSimplex (input : Input) (format : Format) (settings : SimplexSettings Float)
    (showTableaus : Bool) : Answer :=
  match settings.solve input.problem with
  | .error e => .failed (.invalid e)
  | .ok s =>
    ⟨match format with
     | .json => jsonReport s.toJson
     | .text => simplexReport input.names showTableaus s,
     .ok (s.status == .optimal)⟩

def answerCheck (input : Input) (point : Option (List Float)) : Answer :=
  match input.problem.validate with
  | .error e => .failed (.invalid e)
  | .ok () =>
    let report := problemReport input.names input.problem
    match point with
    | none => ⟨report, .ok true⟩
    | some point =>
      if point.length ≠ input.problem.variableCount then
        ⟨report, .error (.pointLength point.length input.problem.variableCount)⟩
      else
        ⟨report ++ pointReport input.names input.problem point,
          .ok (isFeasible input.problem point)⟩

namespace Command

/-- The answer to a command for the problem that its source holds. -/
def answer (c : Command) (input : Input) : Answer :=
  match c with
  | graphical _ format tolerance =>
    answerGraphical input format (tolerance.getD Scalar.defaultTolerance)
  | simplex _ format tolerance maxIterations twoPhase bigM tableaus =>
    answerSimplex input format
      ⟨maxIterations, tolerance.getD Scalar.defaultTolerance,
        if twoPhase then .twoPhase else .bigM, bigM.getD defaultBigM⟩
      tableaus
  | check _ point => answerCheck input point

/-- Runs a command on its source, or on the reason why that could not be read. -/
def run (c : Command) (source : Except String String) : Outcome :=
  match source with
  | .error cause => (Answer.failed (.unreadable c.file cause)).outcome
  | .ok source =>
    match Input.load c.file source with
    | .error f => (Answer.failed f).outcome
    | .ok input => (c.answer input).outcome

end Command

/-- What is said of a file that does not exist. -/
def missingFile : String := "No such file or directory (os error 2)"

end CommandLine

end LinearProgram

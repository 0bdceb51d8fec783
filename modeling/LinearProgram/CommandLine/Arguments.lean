import LinearProgram.Number.FloatText

/-! # Arguments

What a command line asks for. Options may stand before or behind the file, each at most once unless
it collects values; a value stands behind a space or an equals sign.
-/

namespace LinearProgram

namespace CommandLine

inductive Format where
  | text
  | json
  deriving DecidableEq, Repr

inductive Command where
  | graphical (file : String) (format : Format) (tolerance : Option Float)
  | simplex (file : String) (format : Format) (tolerance : Option Float)
      (maxIterations : Option Nat) (twoPhase : Bool) (bigM : Option Float) (tableaus : Bool)
  | check (file : String) (point : Option (List Float))
  deriving DecidableEq, Repr

def Command.file : Command → String
  | .graphical file .. => file
  | .simplex file .. => file
  | .check file _ => file

/-- An option of a command. -/
structure Switch where
  long : String
  short : Option Char
  takesValue : Bool
  /-- Whether a negative number may follow as an argument of its own. -/
  takesNegative : Bool
  repeatable : Bool
  deriving DecidableEq, Repr

namespace Switch

def flag (long : String) : Switch := ⟨long, none, false, false, false⟩

def value (long : String) : Switch := ⟨long, none, true, false, false⟩

def logJson : Switch := flag "log-json"

def format : Switch := ⟨"format", some 'f', true, false, false⟩

def point : Switch := ⟨"point", none, true, true, true⟩

def ofGraphical : List Switch := [logJson, format, value "tolerance"]

def ofSimplex : List Switch :=
  [logJson, format, value "tolerance", value "max-iterations", flag "two-phase", value "big-m",
    flag "tableaus"]

def ofCheck : List Switch := [logJson, point]

end Switch

/-- Whether an argument is a minus and digits, with one point and one exponent at most, neither of
them first and the exponent not empty. -/
def isNegativeNumber : List Char → Bool
  | '-' :: cs =>
    let whole := cs.takeWhile Char.isDigit
    let rest := cs.dropWhile Char.isDigit
    let rest := match rest with
      | '.' :: more => if whole.isEmpty then rest else more.dropWhile Char.isDigit
      | _ => rest
    match rest with
    | [] => true
    | c :: digits =>
      (c = 'e' || c = 'E') && !whole.isEmpty && !digits.isEmpty && digits.all Char.isDigit
  | _ => false

/-- Whether an argument may be the value of the option before it. -/
def Switch.accepts (s : Switch) (arg : String) : Bool :=
  match arg.toList with
  | ['-'] => true
  | '-' :: _ => s.takesNegative && isNegativeNumber arg.toList
  | _ => true

/-- Options found, each with its value if it takes one, and the arguments that are none. -/
structure Scan where
  found : List (String × String)
  positional : List String
  deriving DecidableEq, Repr

namespace Scan

def addOption (name value : String) (s : Scan) : Scan :=
  { s with found := (name, value) :: s.found }

def addPositional (arg : String) (s : Scan) : Scan :=
  { s with positional := arg :: s.positional }

/-- The part before the first equals sign, and the part behind it if there is one. -/
def splitEquals (cs : List Char) : List Char × Option (List Char) :=
  match cs.dropWhile (· != '=') with
  | [] => (cs, none)
  | _ :: value => (cs.takeWhile (· != '='), some value)

/-- The switch that an argument names, and the value that it holds itself. -/
def named? (switches : List Switch) : List Char → Option (Switch × Option String)
  | '-' :: '-' :: cs => do
    let (name, value) := splitEquals cs
    let s ← switches.find? (·.long == String.ofList name)
    some (s, value.map String.ofList)
  | '-' :: c :: cs => do
    let s ← switches.find? (·.short == some c)
    match cs with
    | [] => some (s, none)
    | '=' :: value => some (s, some (String.ofList value))
    | value => some (s, some (String.ofList value))
  | _ => none

/-- The arguments of a command in order; none if an option is unknown or lacks its value. Behind
`--` no argument is an option. -/
def ofArguments (switches : List Switch) : List String → Option Scan
  | [] => some ⟨[], []⟩
  | arg :: rest =>
    if arg = "--" then some ⟨[], rest⟩
    else if arg = "-" ∨ arg.toList.head? ≠ some '-' then
      (ofArguments switches rest).map (addPositional arg)
    else
      match named? switches arg.toList with
      | none => none
      | some (s, some value) =>
        if s.takesValue then (ofArguments switches rest).map (addOption s.long value) else none
      | some (s, none) =>
        if s.takesValue then
          match rest with
          | [] => none
          | value :: rest =>
            if s.accepts value then (ofArguments switches rest).map (addOption s.long value)
            else none
        else (ofArguments switches rest).map (addOption s.long "")

def has (s : Scan) (name : String) : Bool := (s.found.lookup name).isSome

/-- Whether options that may not be repeated are not. -/
def isFreeOfRepeats (switches : List Switch) (s : Scan) : Bool :=
  switches.all fun switch =>
    switch.repeatable || decide (s.found.countP (·.1 == switch.long) ≤ 1)

/-- The value of an option, if it is given; none if the value cannot be read. -/
def read? {β : Type} (s : Scan) (name : String) (reader : String → Option β) : Option (Option β) :=
  match s.found.lookup name with
  | none => some none
  | some value => (reader value).map some

/-- The file, which is the only argument that is no option and is not empty. -/
def file? (s : Scan) : Option String :=
  match s.positional with
  | [file] => if file.isEmpty then none else some file
  | _ => none

end Scan

def readFormat? : String → Option Format
  | "text" => some .text
  | "json" => some .json
  | _ => none

/-- Digits for a number of 64 bits, a plus allowed in front. -/
def readCount? (s : String) : Option Nat :=
  let digits := match s.toList with
    | '+' :: digits => digits
    | digits => digits
  let n := Digits.value digits
  if digits.isEmpty || !digits.all Char.isDigit || decide (wordBound ≤ n) then none else some n

/-- The parts of a text between commas. -/
def splitCommas : List Char → List (List Char)
  | [] => [[]]
  | ',' :: rest => [] :: splitCommas rest
  | c :: rest =>
    match splitCommas rest with
    | [] => [[c]]
    | part :: parts => (c :: part) :: parts

/-- Coordinates between commas. -/
def readPoint? (s : String) : Option (List Float) :=
  (splitCommas s.toList).mapM fun part => FloatText.read? (String.ofList part)

namespace Command

def graphical? (s : Scan) : Option Command := do
  let file ← s.file?
  let format ← s.read? "format" readFormat?
  let tolerance ← s.read? "tolerance" FloatText.read?
  some (.graphical file (format.getD .text) tolerance)

/-- A penalty is of no use to the two-phase method. -/
def simplex? (s : Scan) : Option Command := do
  let file ← s.file?
  let format ← s.read? "format" readFormat?
  let tolerance ← s.read? "tolerance" FloatText.read?
  let maxIterations ← s.read? "max-iterations" readCount?
  let bigM ← s.read? "big-m" FloatText.read?
  if s.has "two-phase" && s.has "big-m" then none
  else
    some (.simplex file (format.getD .text) tolerance maxIterations (s.has "two-phase") bigM
      (s.has "tableaus"))

/-- The points of all its options are joined. -/
def check? (s : Scan) : Option Command := do
  let file ← s.file?
  let points ← (s.found.filter (·.1 == "point")).mapM fun (_, value) => readPoint? value
  some (.check file (if points.isEmpty then none else some points.flatten))

/-- Scans the arguments behind the name of a command. -/
def behindName? (switches : List Switch) (build : Scan → Option Command) (args : List String) :
    Option Command := do
  let scan ← Scan.ofArguments switches args
  if scan.isFreeOfRepeats switches then build scan else none

def named? : List String → Option Command
  | "graphical" :: args => behindName? Switch.ofGraphical graphical? args
  | "simplex" :: args => behindName? Switch.ofSimplex simplex? args
  | "check" :: args => behindName? Switch.ofCheck check? args
  | _ => none

/-- The command that arguments spell. How logs would be written may be said in front of it. -/
def ofArguments? : List String → Option Command
  | "--log-json" :: args => named? args
  | args => named? args

end Command

end CommandLine

end LinearProgram

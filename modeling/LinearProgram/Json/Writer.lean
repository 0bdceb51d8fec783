import LinearProgram.Json.Value
import LinearProgram.Number.Fixed

/-! # Writing JSON

Two forms of the same text: without any spaces, or with every element and field on a line of its
own.
-/

namespace LinearProgram

namespace Json

/-- Quotes, backslashes and control characters are escaped, all others stand for themselves. -/
def escape (c : Char) : String :=
  if c = '"' then "\\\""
  else if c = '\\' then "\\\\"
  else if c = '\x08' then "\\b"
  else if c = '\x0c' then "\\f"
  else if c = '\n' then "\\n"
  else if c = '\r' then "\\r"
  else if c = '\t' then "\\t"
  else if c.toNat < 32 then "\\u" ++ Text.zeroPadded 4 (Nat.toDigits 16 c.toNat)
  else c.toString

def quoted (s : String) : String := "\"" ++ String.join (s.toList.map escape) ++ "\""

/-- A string that no characters spell is written empty. -/
def quoted? (s : Option String) : String := quoted (s.getD "")

mutual

/-- The text without spaces. -/
def compact : Json → String
  | null => "null"
  | bool b => if b then "true" else "false"
  | number n => n.text
  | string s => quoted? s
  | array elements => "[" ++ ",".intercalate (compactElements elements) ++ "]"
  | object fields => "\x7b" ++ ",".intercalate (compactFields fields) ++ "\x7d"

def compactElements : List Json → List String
  | [] => []
  | j :: rest => compact j :: compactElements rest

def compactFields : List (Option String × Json) → List String
  | [] => []
  | (name, j) :: rest => (quoted? name ++ ":" ++ compact j) :: compactFields rest

end

/-- A new line at a depth, two spaces for each level. -/
def newLine (depth : Nat) : String := "\n".pushn ' ' (2 * depth)

/-- Brackets around lines one level deeper; nothing between them if there are no lines. -/
def block (depth : Nat) (opening closing : String) (lines : List String) : String :=
  if lines.isEmpty then opening ++ closing
  else
    opening ++ newLine (depth + 1) ++ ("," ++ newLine (depth + 1)).intercalate lines ++
      newLine depth ++ closing

mutual

/-- The text with one line for every element and field, indented from a depth. -/
def pretty (depth : Nat) : Json → String
  | null => "null"
  | bool b => if b then "true" else "false"
  | number n => n.text
  | string s => quoted? s
  | array elements => block depth "[" "]" (prettyElements (depth + 1) elements)
  | object fields => block depth "\x7b" "\x7d" (prettyFields (depth + 1) fields)

def prettyElements (depth : Nat) : List Json → List String
  | [] => []
  | j :: rest => pretty depth j :: prettyElements depth rest

def prettyFields (depth : Nat) : List (Option String × Json) → List String
  | [] => []
  | (name, j) :: rest => (quoted? name ++ ": " ++ pretty depth j) :: prettyFields depth rest

end

end Json

end LinearProgram

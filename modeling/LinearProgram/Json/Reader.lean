import LinearProgram.Json.Value
import LinearProgram.Parsed

/-! # Reading JSON

The grammar of JSON texts over lists of characters. Numbers of any size and strings with unpaired
surrogates are read; whether they have a meaning is left to whoever uses the value. How a numeral is
rounded to a double is given.
-/

namespace LinearProgram

namespace Json

namespace Reader

def isBlank (c : Char) : Bool := c = ' ' || c = '\n' || c = '\t' || c = '\r'

def skipBlanks (cs : List Char) : List Char := cs.dropWhile isBlank

theorem length_skipBlanks_le (cs : List Char) : (skipBlanks cs).length ≤ cs.length :=
  (List.dropWhile_sublist isBlank).length_le

def hexDigit? (c : Char) : Option Nat :=
  if c.isDigit then some (c.toNat - '0'.toNat)
  else if 'a' ≤ c ∧ c ≤ 'f' then some (c.toNat - 'a'.toNat + 10)
  else if 'A' ≤ c ∧ c ≤ 'F' then some (c.toNat - 'A'.toNat + 10)
  else none

/-- The character that a backslash and a letter stand for. -/
def escaped? : Char → Option Char
  | '"' => some '"'
  | '\\' => some '\\'
  | '/' => some '/'
  | 'b' => some '\x08'
  | 'f' => some '\x0c'
  | 'n' => some '\n'
  | 'r' => some '\r'
  | 't' => some '\t'
  | _ => none

/-- The value of four hexadecimal digits. -/
def hexCode? (a b c d : Char) : Option Nat := do
  let a ← hexDigit? a
  let b ← hexDigit? b
  let c ← hexDigit? c
  let d ← hexDigit? d
  some (((a * 16 + b) * 16 + c) * 16 + d)

/-- The codes of a string up to its closing quote, and what follows it. A surrogate is a code of its
own here. -/
def codes : List Char → Option (List Nat × List Char)
  | [] => none
  | '"' :: rest => some ([], rest)
  | '\\' :: 'u' :: a :: b :: c :: d :: rest => do
    let code ← hexCode? a b c d
    let (more, rest) ← codes rest
    some (code :: more, rest)
  | '\\' :: c :: rest => do
    let c ← escaped? c
    let (more, rest) ← codes rest
    some (c.toNat :: more, rest)
  | c :: rest =>
    if c.toNat < 32 then none
    else do
      let (more, rest) ← codes rest
      some (c.toNat :: more, rest)

/-- Joins surrogate pairs; none if a surrogate is left over. -/
def characters : List Nat → Option (List Char)
  | [] => some []
  | code :: rest =>
    if 0xD800 ≤ code ∧ code < 0xDC00 then
      match rest with
      | low :: rest =>
        if 0xDC00 ≤ low ∧ low < 0xE000 then do
          let more ← characters rest
          some (Char.ofNat (0x10000 + (code - 0xD800) * 0x400 + (low - 0xDC00)) :: more)
        else none
      | [] => none
    else if 0xDC00 ≤ code ∧ code < 0xE000 then none
    else do
      let more ← characters rest
      some (Char.ofNat code :: more)

theorem length_codes_lt {cs rest : List Char} {found : List Nat}
    (h : codes cs = some (found, rest)) : rest.length < cs.length := by
  fun_induction codes cs generalizing found rest with
  | case1 => simp at h
  | case2 tail =>
    cases h
    simp
  | case3 a b c d tail ih =>
    simp only [Option.bind_eq_bind, Option.bind_eq_some_iff] at h
    obtain ⟨code, _, ⟨more, left⟩, hm, h⟩ := h
    cases h
    have := ih hm
    simp only [List.length_cons]
    omega
  | case4 c tail _ ih =>
    simp only [Option.bind_eq_bind, Option.bind_eq_some_iff] at h
    obtain ⟨code, _, ⟨more, left⟩, hm, h⟩ := h
    cases h
    have := ih hm
    simp only [List.length_cons]
    omega
  | case5 => simp at h
  | case6 c tail _ _ _ _ ih =>
    simp only [Option.bind_eq_bind, Option.bind_eq_some_iff] at h
    obtain ⟨⟨more, left⟩, hm, h⟩ := h
    cases h
    have := ih hm
    simp only [List.length_cons]
    omega

/-- A string behind its opening quote. -/
def string (cs : List Char) : Option (Parsed (Option String) cs) :=
  match h : codes cs with
  | none => none
  | some (found, rest) =>
    some ⟨(characters found).map String.ofList, rest, length_codes_lt h⟩

/-- Digits behind a point; none if the point has none. -/
def fraction? : List Char → Option (List Char × List Char)
  | '.' :: rest =>
    let digits := rest.takeWhile Char.isDigit
    if digits.isEmpty then none else some (digits, rest.dropWhile Char.isDigit)
  | rest => some ([], rest)

/-- A numeral behind its sign. Only zero itself starts with a zero. -/
def unsigned? (negative : Bool) (cs : List Char) : Option (Numeral × List Char) := do
  let digits := cs.takeWhile Char.isDigit
  if digits.isEmpty || (digits.head? == some '0' && digits.length != 1) then none
  let (fraction, rest) ← fraction? (cs.dropWhile Char.isDigit)
  let (exponent, rest) ← Digits.exponent? rest
  some (⟨negative, digits, fraction, exponent⟩, rest)

def numeral? : List Char → Option (Numeral × List Char)
  | '-' :: rest => unsigned? true rest
  | cs => unsigned? false cs

theorem length_fraction_le {cs digits rest : List Char} (h : fraction? cs = some (digits, rest)) :
    rest.length ≤ cs.length := by
  unfold fraction? at h
  split at h
  · next tail =>
    dsimp only at h
    split at h
    · simp at h
    · next hne =>
      cases h
      have := Digits.length_dropWhile_lt Char.isDigit tail (by simpa using hne)
      simp only [List.length_cons]
      omega
  · cases h
    exact Nat.le_refl _

theorem length_unsigned_lt {negative : Bool} {cs rest : List Char} {q : Numeral}
    (h : unsigned? negative cs = some (q, rest)) : rest.length < cs.length := by
  simp only [unsigned?, Option.bind_eq_bind] at h
  split at h
  · simp at h
  · next hd =>
    simp only [Option.bind_eq_some_iff] at h
    obtain ⟨⟨fraction, more⟩, hf, ⟨e, left⟩, he, h⟩ := h
    cases h
    have h1 := Digits.length_dropWhile_lt Char.isDigit cs (by simp_all)
    have h2 := length_fraction_le hf
    have h3 := Digits.length_exponent_le he
    exact Nat.lt_of_le_of_lt (Nat.le_trans h3 h2) h1

theorem length_numeral_lt {cs rest : List Char} {q : Numeral}
    (h : numeral? cs = some (q, rest)) : rest.length < cs.length := by
  unfold numeral? at h
  split at h
  · have := length_unsigned_lt h
    simp only [List.length_cons]
    omega
  · exact length_unsigned_lt h

variable (round : Numeral → Float)

/-- A value without brackets or quotes, behind the blanks. -/
def scalar (cs : List Char) : Option (Parsed Json cs) :=
  match cs with
  | 'n' :: 'u' :: 'l' :: 'l' :: rest => some ⟨.null, rest, by simp; omega⟩
  | 't' :: 'r' :: 'u' :: 'e' :: rest => some ⟨.bool true, rest, by simp; omega⟩
  | 'f' :: 'a' :: 'l' :: 's' :: 'e' :: rest => some ⟨.bool false, rest, by simp; omega⟩
  | cs =>
    match h : numeral? cs with
    | none => none
    | some (q, rest) => some ⟨.number (q.number round), rest, length_numeral_lt h⟩

theorem length_lt_of_skipBlanks {cs rest : List Char} {c : Char}
    (h : skipBlanks cs = c :: rest) : rest.length < cs.length := by
  have := length_skipBlanks_le cs
  rw [h, List.length_cons] at this
  exact this

mutual

/-- A value, blanks before it skipped. -/
def value (cs : List Char) : Option (Parsed Json cs) :=
  match h : skipBlanks cs with
  | '"' :: rest =>
    (string rest).map fun p =>
      (p.map .string).within (Nat.le_of_lt (length_lt_of_skipBlanks h))
  | '[' :: rest =>
    have hrest := length_lt_of_skipBlanks h
    match hnext : skipBlanks rest with
    | ']' :: rest' =>
      some ⟨.array [], rest', Nat.lt_trans (length_lt_of_skipBlanks hnext) hrest⟩
    | _ => (elements rest).map fun p => (p.map .array).within (Nat.le_of_lt hrest)
  | '\x7b' :: rest =>
    have hrest := length_lt_of_skipBlanks h
    match hnext : skipBlanks rest with
    | '\x7d' :: rest' =>
      some ⟨.object [], rest', Nat.lt_trans (length_lt_of_skipBlanks hnext) hrest⟩
    | _ => (members rest).map fun p => (p.map .object).within (Nat.le_of_lt hrest)
  | cs' =>
    (scalar round cs').map (Parsed.within (by rw [← h]; exact length_skipBlanks_le cs))
termination_by 2 * cs.length

/-- The elements of an array up to its closing bracket, at least one. -/
def elements (cs : List Char) : Option (Parsed (List Json) cs) := do
  let first ← value cs
  have hfirst := first.shorter
  match h : skipBlanks first.rest with
  | ',' :: rest =>
    have hrest := length_lt_of_skipBlanks h
    let more ← elements rest
    some ⟨first.value :: more.value, more.rest, by have := more.shorter; omega⟩
  | ']' :: rest => some ⟨[first.value], rest, Nat.lt_trans (length_lt_of_skipBlanks h) hfirst⟩
  | _ => none
termination_by 2 * cs.length + 1

/-- The fields of an object up to its closing brace, at least one. -/
def members (cs : List Char) : Option (Parsed (List (Option String × Json)) cs) := do
  match h : skipBlanks cs with
  | '"' :: rest =>
    have hrest := length_lt_of_skipBlanks h
    let name ← string rest
    have hname := name.shorter
    match hcolon : skipBlanks name.rest with
    | ':' :: rest =>
      have hrest := length_lt_of_skipBlanks hcolon
      let first ← value rest
      have hfirst := first.shorter
      match hnext : skipBlanks first.rest with
      | ',' :: rest =>
        have hrest := length_lt_of_skipBlanks hnext
        let more ← members rest
        some ⟨(name.value, first.value) :: more.value, more.rest, by have := more.shorter; omega⟩
      | '\x7d' :: rest =>
        some ⟨[(name.value, first.value)], rest, by
          have := length_lt_of_skipBlanks hnext
          omega⟩
      | _ => none
    | _ => none
  | _ => none
termination_by 2 * cs.length + 1

end

end Reader

/-- The value of a JSON text; nothing but blanks may follow it. -/
def ofChars? (round : Numeral → Float) (cs : List Char) : Option Json := do
  let p ← Reader.value round cs
  if (Reader.skipBlanks p.rest).isEmpty then some p.value else none

/-- The value of a JSON text, its numerals read quickly. -/
def ofString? (s : String) : Option Json := ofChars? Numeral.quick s.toList

end Json

end LinearProgram

import LinearProgram.Problem.Text
import LinearProgram.Proofs.PlainNumerals

/-! # The tokens of printed problems

What the words of a text are does not depend on where it stands, so they are found piece by piece. A
numeral ends before a name that is written right behind it.
-/

namespace LinearProgram

namespace Lexer

/-- The kinds and texts of the tokens. -/
def words (cs : List Char) : List (TokenKind × String) :=
  (Cursor.tokens ⟨0, cs⟩).map fun t => (t.kind, t.text)

/-- Neither positions nor blanks matter for what is cut off next. -/
theorem next?_congr {c d : Cursor} (h : c.skipBlanks.rest = d.skipBlanks.rest) :
    (c.next? = none ∧ d.next? = none) ∨
      ∃ t u after after', c.next? = some (t, after) ∧ d.next? = some (u, after') ∧
        t.kind = u.kind ∧ t.text = u.text ∧ after.rest = after'.rest := by
  cases hd : d.skipBlanks.rest with
  | nil =>
    refine Or.inl ⟨?_, ?_⟩
    · rw [Cursor.next?, h, hd]
    · rw [Cursor.next?, hd]
  | cons first rest =>
    refine Or.inr ⟨_, _, _, _, by rw [Cursor.next?, h, hd], by rw [Cursor.next?, hd], ?_⟩
    exact ⟨rfl, rfl, rfl⟩

theorem skipBlanks_congr {c d : Cursor} (h : c.rest = d.rest) :
    c.skipBlanks.rest = d.skipBlanks.rest := by
  rw [Cursor.skipBlanks, Cursor.skipBlanks, h]

theorem tokens_congr {c d : Cursor} (h : c.skipBlanks.rest = d.skipBlanks.rest) :
    c.tokens.map (fun t => (t.kind, t.text)) = d.tokens.map fun t => (t.kind, t.text) := by
  fun_induction Cursor.tokens c generalizing d with
  | case1 c hc =>
    obtain ⟨-, hd⟩ | ⟨_, _, _, _, hsome, -⟩ := next?_congr h
    · rw [Cursor.tokens]
      split
      · rfl
      · next hsome => rw [hd] at hsome; cases hsome
    · rw [hc] at hsome
      cases hsome
  | case2 c t after hc _ ih =>
    obtain ⟨hnone, -⟩ | ⟨t', u, after', rest, hsome, hd, hkind, htext, hrest⟩ := next?_congr h
    · rw [hc] at hnone
      cases hnone
    · rw [hc] at hsome
      obtain ⟨rfl, rfl⟩ := Prod.mk.inj (Option.some.inj hsome)
      rw [Cursor.tokens.eq_1 d]
      split
      · next hnone => rw [hd] at hnone; cases hnone
      · next u' after'' hd' =>
        rw [hd] at hd'
        obtain ⟨rfl, rfl⟩ := Prod.mk.inj (Option.some.inj hd')
        rw [List.map_cons, List.map_cons, hkind, htext, ih (skipBlanks_congr hrest)]

theorem words_of_next? {cs : List Char} {t : Token} {after : Cursor}
    (h : Cursor.next? ⟨0, cs⟩ = some (t, after)) :
    words cs = (t.kind, t.text) :: words after.rest := by
  rw [words, Cursor.tokens]
  split
  · next hnone => rw [h] at hnone; cases hnone
  · next t' after' h' =>
    rw [h] at h'
    obtain ⟨rfl, rfl⟩ := Prod.mk.inj (Option.some.inj h')
    exact congrArg ((t.kind, t.text) :: ·) (tokens_congr rfl)

theorem words_nil : words [] = [(.eof, "")] := by decide +kernel

section FirstCharacter

variable {first : Char} {rest : List Char}

theorem skipBlanks_of_not_isBlank (h : isBlank first = false) (position : ℕ) :
    (Cursor.mk position (first :: rest)).skipBlanks = ⟨position, first :: rest⟩ := by
  simp [Cursor.skipBlanks, h, byteLength]

/-- A token begins with every character that is not blank. -/
theorem words_lexeme (hblank : isBlank first = false) : words (first :: rest) =
    ((lexeme first rest).1, String.ofList (first :: rest.take (lexeme first rest).2)) ::
      words (rest.drop (lexeme first rest).2) := by
  have hnext : Cursor.next? ⟨0, first :: rest⟩ = some (⟨(lexeme first rest).1,
      ⟨0, 0 + byteLength (first :: rest.take (lexeme first rest).2)⟩,
        String.ofList (first :: rest.take (lexeme first rest).2)⟩,
          ⟨0 + byteLength (first :: rest.take (lexeme first rest).2),
            rest.drop (lexeme first rest).2⟩) := by
    rw [Cursor.next?, skipBlanks_of_not_isBlank hblank]
  exact words_of_next? hnext

theorem words_cons {kind : TokenKind} {more : ℕ} (hblank : isBlank first = false)
    (h : lexeme first rest = (kind, more)) :
    words (first :: rest) = (kind, String.ofList (first :: rest.take more)) ::
      words (rest.drop more) := by
  rw [words_lexeme hblank, h]

theorem words_blank (h : isBlank first = true) : words (first :: rest) = words rest := by
  refine tokens_congr ?_
  simp [Cursor.skipBlanks, h]

end FirstCharacter

section Names

/-- The text is a token, and this token is a name. -/
def isName (name : String) : Bool := words name.toList = [(.ident, name), (.eof, "")]

/-- What the lexer cuts off behind the first character of a name. -/
def restOfName (c : Char) (cs : List Char) : TokenKind × ℕ :=
  (wordKind (c :: cs.take (run Alphabet.continuesName cs)), run Alphabet.continuesName cs)

theorem lexeme_of_beginsName {c : Char} (hdigit : c.isDigit = false)
    (hbegins : Alphabet.beginsName c = true) (cs : List Char) : lexeme c cs = restOfName c cs := by
  unfold lexeme
  split
  case h_19 => rw [if_neg (ne_true_of_eq_false hdigit), if_pos hbegins, restOfName]
  all_goals exact absurd hbegins (by decide +kernel)

/-- A name begins with a character that separates it from a numeral in front. -/
theorem begins_of_ident {c : Char} {cs : List Char} (h : (lexeme c cs).1 = .ident) :
    Alphabet.beginsName c = true ∧ isBlank c = false ∧ c.isDigit = false ∧ c ≠ '.' := by
  unfold lexeme at h
  split at h
  case h_19 hpoint =>
    split at h
    · cases h
    · next hdigit =>
      split at h
      · next hbegins =>
        refine ⟨hbegins, ?_, eq_false_of_ne_true hdigit, hpoint⟩
        by_contra hblank
        simp only [isBlank, Bool.not_eq_false, Bool.or_eq_true, decide_eq_true_eq] at hblank
        rcases hblank with (rfl | rfl) | rfl <;> exact absurd hbegins (by decide +kernel)
      · cases h
  case h_18 => split at h <;> cases h
  case h_17 =>
    have hmem := equality_mem cs
    rw [h] at hmem
    simp at hmem
  case h_3 => split at h <;> cases h
  all_goals cases h

variable {name : String}

/-- A name is a single token whatever stands behind it, if that does not continue it. -/
theorem exists_lexeme_of_isName (h : isName name = true) : ∃ c cs, name.toList = c :: cs ∧
    isBlank c = false ∧ c.isDigit = false ∧ c ≠ '.' ∧
      ∀ rest, (∀ d ∈ rest.head?, Alphabet.continuesName d = false) →
        lexeme c (cs ++ rest) = (.ident, cs.length) := by
  rw [isName, decide_eq_true_eq] at h
  cases hskip : (Cursor.mk 0 name.toList).skipBlanks.rest with
  | nil =>
    have hnone : words name.toList = words [] := tokens_congr hskip
    rw [hnone, words_nil] at h
    simp at h
  | cons c cs =>
    have hsplit : name.toList.dropWhile isBlank = c :: cs := hskip
    have hblank : isBlank c = false := by
      have hhead := List.head?_dropWhile_not isBlank name.toList
      rw [hsplit] at hhead
      simpa using hhead
    have hwords : words name.toList = words (c :: cs) :=
      tokens_congr (hskip.trans (congrArg Cursor.rest (skipBlanks_of_not_isBlank hblank 0)).symm)
    rw [hwords, words_lexeme hblank] at h
    obtain ⟨hfirst, -⟩ := List.cons.inj h
    obtain ⟨hkind, htext⟩ := Prod.mk.inj hfirst
    obtain ⟨hbegins, -, hdigit, hpoint⟩ := begins_of_ident hkind
    have hlexeme := lexeme_of_beginsName hdigit hbegins
    rw [hlexeme, restOfName] at hkind htext
    rw [take_run] at hkind htext
    have hname : name.toList = c :: cs.takeWhile Alphabet.continuesName := by
      rw [← htext, String.toList_ofList]
    have hall : cs.takeWhile Alphabet.continuesName = cs := by
      refine (List.takeWhile_prefix _).eq_of_length_le ?_
      have hle := (List.dropWhile_sublist (l := name.toList) isBlank).length_le
      rw [hsplit, hname] at hle
      simpa using hle
    rw [hall] at hkind hname
    refine ⟨c, cs, hname, hblank, hdigit, hpoint, fun rest hrest => ?_⟩
    have hrun : run Alphabet.continuesName (cs ++ rest) = cs.length := by
      rw [run, List.takeWhile_append_of_pos (List.takeWhile_eq_self_iff.mp hall)]
      cases rest with
      | nil => simp
      | cons d ds => simp [hrest d rfl]
    rw [hlexeme, restOfName, hrun, List.take_left]
    exact congrArg (·, cs.length) hkind

theorem words_name (h : isName name = true) {rest : List Char}
    (hrest : ∀ d ∈ rest.head?, Alphabet.continuesName d = false) :
    words (name.toList ++ rest) = (.ident, name) :: words rest := by
  obtain ⟨c, cs, hname, hblank, -, -, hlexeme⟩ := exists_lexeme_of_isName h
  have htext : String.ofList (c :: cs) = name := by rw [← hname, String.ofList_toList]
  rw [hname, List.cons_append, words_cons hblank (hlexeme rest hrest), List.take_left,
    List.drop_left, htext]

end Names

section Numerals

theorem lexeme_of_isDigit {c : Char} (h : c.isDigit = true) (cs : List Char) : lexeme c cs =
    (.number, run Char.isDigit cs + decimalPart (cs.drop (run Char.isDigit cs))) := by
  unfold lexeme
  split
  case h_19 => exact if_pos h
  all_goals exact absurd h (by decide)

theorem isBlank_of_isDigit {c : Char} (h : c.isDigit = true) : isBlank c = false := by
  by_contra hblank
  simp only [isBlank, Bool.not_eq_false, Bool.or_eq_true, decide_eq_true_eq] at hblank
  rcases hblank with (rfl | rfl) | rfl <;> exact absurd h (by decide)

theorem run_append {ds rest : List Char} (hds : ∀ c ∈ ds, c.isDigit = true)
    (hrest : ∀ d ∈ rest.head?, d.isDigit = false) : run Char.isDigit (ds ++ rest) = ds.length := by
  rw [run, Digits.takeWhile_append hds hrest]

theorem decimalPart_pointed {fraction rest : List Char} (h : ∀ c ∈ fraction, c.isDigit = true)
    (hrest : ∀ d ∈ rest.head?, d.isDigit = false ∧ d ≠ '.') :
    (∀ d ∈ (PlainNumeral.pointed fraction ++ rest).head?, d.isDigit = false) ∧
      decimalPart (PlainNumeral.pointed fraction ++ rest) =
        (PlainNumeral.pointed fraction).length := by
  cases fraction with
  | nil =>
    refine ⟨fun d hd => (hrest d hd).1, ?_⟩
    rw [PlainNumeral.pointed, List.nil_append, decimalPart]
    · rfl
    · rintro cs rfl
      exact (hrest '.' rfl).2 rfl
  | cons d ds =>
    have hrun := run_append h fun d hd => (hrest d hd).1
    refine ⟨fun d hd => ?_, ?_⟩
    · obtain rfl := Option.some.inj hd
      rfl
    · rw [PlainNumeral.pointed, List.cons_append, decimalPart, hrun, if_neg (by simp)]
      rfl

/-- A numeral is a single token if neither a digit nor a point stands behind it. -/
theorem words_chars (n : PlainNumeral) {rest : List Char}
    (hrest : ∀ d ∈ rest.head?, d.isDigit = false ∧ d ≠ '.') :
    words (n.chars ++ rest) = (.number, String.ofList n.chars) :: words rest := by
  obtain ⟨d, ds, hwhole⟩ := List.exists_cons_of_ne_nil n.whole_ne_nil
  have hdigits := n.isDigit_whole
  rw [hwhole, List.forall_mem_cons] at hdigits
  have hchars : n.chars = d :: (ds ++ PlainNumeral.pointed n.fraction) := by
    rw [PlainNumeral.chars, hwhole, List.cons_append]
  have hmore : lexeme d (ds ++ PlainNumeral.pointed n.fraction ++ rest) =
      (.number, (ds ++ PlainNumeral.pointed n.fraction).length) := by
    obtain ⟨hstop, hdecimal⟩ := decimalPart_pointed n.isDigit_fraction hrest
    rw [lexeme_of_isDigit hdigits.1, List.append_assoc, run_append hdigits.2 hstop, List.drop_left,
      hdecimal, List.length_append]
  rw [hchars, List.cons_append, words_cons (isBlank_of_isDigit hdigits.1) hmore, List.take_left,
    List.drop_left]

end Numerals

section Signs

variable (rest : List Char)

theorem words_minus : words ('-' :: rest) = (.minus, "-") :: words rest := words_cons rfl rfl

theorem words_newline : words ('\n' :: rest) = (.newline, "\n") :: words rest := words_cons rfl rfl

/-- The operator or sign before a term. -/
def signWords (first : Bool) (a : Float) : List (TokenKind × String) :=
  if a < 0 then [(.minus, "-")] else if first then [] else [(.plus, "+")]

theorem words_termSign (first : Bool) (a : Float) :
    words ((termSign first a).toList ++ rest) = signWords first a ++ words rest := by
  have hminus : words (' ' :: '-' :: ' ' :: rest) = (.minus, "-") :: words rest := by
    rw [words_blank rfl, words_minus, words_blank rfl]
  have hplus : words (' ' :: '+' :: ' ' :: rest) = (.plus, "+") :: words rest := by
    rw [words_blank rfl, words_cons rfl rfl]
    exact congrArg _ (words_blank rfl)
  by_cases hneg : a < 0
  · cases first <;> simp only [termSign, signWords, if_pos hneg, decide_eq_true hneg]
    · exact hminus
    · exact words_minus rest
  · cases first <;> simp only [termSign, signWords, if_neg hneg, decide_eq_false hneg]
    · exact hplus
    · rfl

def relationKind : Relation → TokenKind
  | .le => .le
  | .ge => .ge
  | .eq => .eq

theorem words_symbol (relation : Relation) : words (relation.symbol.toList ++ ' ' :: rest) =
    (relationKind relation, relation.symbol) :: words rest := by
  cases relation <;> refine (words_cons rfl rfl).trans (congrArg _ (words_blank rfl))

end Signs

section Terms

/-- What is written as a term: a finite coefficient and a name. -/
def IsTerm (t : Float × String) : Prop := t.1.isFinite = true ∧ isName t.2 = true

def termsWords (first : Bool) : List (Float × String) → List (TokenKind × String)
  | [] => []
  | (a, name) :: terms =>
    signWords first a ++ (.number, Scalar.compact a.abs) :: (.ident, name) :: termsWords false terms

theorem head?_termsText {terms : List (Float × String)} {rest : List Char}
    (hrest : ∀ d ∈ rest.head?, Alphabet.continuesName d = false) :
    ∀ d ∈ ((termsText false terms).toList ++ rest).head?, Alphabet.continuesName d = false := by
  cases terms with
  | nil => exact hrest
  | cons t terms =>
    intro d hd
    have hblank : d = ' ' := by
      obtain ⟨a, name⟩ := t
      rw [termsText] at hd
      by_cases hneg : a < 0 <;> simp [termSign, hneg] at hd <;> exact hd.symm
    rw [hblank]
    decide +kernel

theorem words_termsText (first : Bool) {terms : List (Float × String)}
    (h : ∀ t ∈ terms, IsTerm t) {rest : List Char}
    (hrest : ∀ d ∈ rest.head?, Alphabet.continuesName d = false) :
    words ((termsText first terms).toList ++ rest) = termsWords first terms ++ words rest := by
  induction terms generalizing first with
  | nil => rfl
  | cons t terms ih =>
    obtain ⟨a, name⟩ := t
    obtain ⟨⟨hfinite, hname⟩, hterms⟩ := List.forall_mem_cons.mp h
    obtain ⟨num, den, hexact⟩ := Scalar.exact_abs hfinite
    obtain ⟨n, hn | ⟨hfalse, -⟩⟩ := Scalar.exists_compact (x := a.abs) hexact
    · have htext : (termsText first ((a, name) :: terms)).toList ++ rest =
          (termSign first a).toList ++
            (n.chars ++ (name.toList ++ ((termsText false terms).toList ++ rest))) := by
        rw [termsText, String.toList_append, String.toList_append, String.toList_append]
        simp only [List.append_assoc]
        rw [← hn]
        rfl
      have hnumber : String.ofList n.chars = Scalar.compact a.abs := by
        rw [← hn, String.ofList_toList]
      have hseparate : ∀ d ∈ (name.toList ++ ((termsText false terms).toList ++ rest)).head?,
          d.isDigit = false ∧ d ≠ '.' := by
        obtain ⟨c, cs, hc, -, hdigit, hpoint, -⟩ := exists_lexeme_of_isName hname
        rw [hc]
        rintro d hd
        obtain rfl := Option.some.inj hd
        exact ⟨hdigit, hpoint⟩
      rw [htext, words_termSign, words_chars n hseparate, words_name hname (head?_termsText hrest),
        ih false hterms, hnumber, termsWords, List.append_assoc]
      rfl
    · cases hfalse

end Terms

section Numbers

/-- The words of a number: a minus in front is a word of its own. -/
def numberWords : List Char → List (TokenKind × String)
  | '-' :: cs => [(.minus, "-"), (.number, String.ofList cs)]
  | cs => [(.number, String.ofList cs)]

theorem numberWords_chars (n : PlainNumeral) :
    numberWords n.chars = [(.number, String.ofList n.chars)] := by
  obtain ⟨d, ds, hchars, hd⟩ := n.exists_cons
  rw [hchars, numberWords]
  rintro cs h
  obtain ⟨rfl, -⟩ := List.cons.inj h
  cases hd

theorem words_compact {b : Float} (hb : b.isFinite = true) {rest : List Char}
    (hrest : ∀ d ∈ rest.head?, d.isDigit = false ∧ d ≠ '.') :
    words ((Scalar.compact b).toList ++ rest) =
      numberWords (Scalar.compact b).toList ++ words rest := by
  obtain ⟨negative, num, den, hexact⟩ := Scalar.exists_exact hb
  obtain ⟨n, hn | ⟨-, hn⟩⟩ := Scalar.exists_compact hexact
  · rw [hn, numberWords_chars, words_chars n hrest]
    rfl
  · rw [hn, List.cons_append, words_minus, words_chars n hrest]
    rfl

end Numbers

end Lexer

/-- The keyword that a text begins with. -/
def Sense.keyword : Sense → String
  | .maximize => "max"
  | .minimize => "min"

/-- The constraints, each on a line of its own. -/
def linesText (names : List String) : List (Constraint Float) → String
  | [] => ""
  | c :: constraints => "\n" ++ c.text names ++ linesText names constraints

/-- The problem as a text: the objective behind its keyword, and a line for each constraint. -/
def Problem.text (names : List String) (p : Problem Float) : String :=
  p.objective.sense.keyword ++ " " ++ expressionText p.objective.coefficients names ++
    linesText names p.constraints

namespace Lexer

def keywordKind : Sense → TokenKind
  | .maximize => .max
  | .minimize => .min

variable {names : List String}

def constraintWords (names : List String) (c : Constraint Float) : List (TokenKind × String) :=
  termsWords true (c.coefficients.zip names) ++
    (relationKind c.relation, c.relation.symbol) :: numberWords (Scalar.compact c.bound).toList

def linesWords (names : List String) : List (Constraint Float) → List (TokenKind × String)
  | [] => []
  | c :: constraints =>
    (.newline, "\n") :: constraintWords names c ++ linesWords names constraints

/-- The numbers and names of a constraint are such that its text can be cut again. -/
def IsPrintable (names : List String) (c : Constraint Float) : Prop :=
  (∀ t ∈ c.coefficients.zip names, IsTerm t) ∧ c.bound.isFinite = true

theorem head?_linesText (constraints : List (Constraint Float)) :
    ∀ d ∈ (linesText names constraints).toList.head?, d = '\n' := by
  intro d hd
  cases constraints with
  | nil => cases hd
  | cons c constraints =>
    simp only [linesText, String.toList_append] at hd
    exact (Option.some.inj hd).symm

theorem words_linesText {constraints : List (Constraint Float)}
    (h : ∀ c ∈ constraints, IsPrintable names c) :
    words (linesText names constraints).toList =
      linesWords names constraints ++ [(.eof, "")] := by
  induction constraints with
  | nil => exact words_nil
  | cons c constraints ih =>
    obtain ⟨⟨hterms, hbound⟩, hrest⟩ := List.forall_mem_cons.mp h
    have htext : (linesText names (c :: constraints)).toList = '\n' ::
        ((expressionText c.coefficients names).toList ++ ' ' :: (c.relation.symbol.toList ++ ' ' ::
          ((Scalar.compact c.bound).toList ++ (linesText names constraints).toList))) := by
      simp only [linesText, Constraint.text, String.toList_append, List.append_assoc]
      rfl
    have hblank : ∀ d ∈ (' ' :: (c.relation.symbol.toList ++ ' ' ::
        ((Scalar.compact c.bound).toList ++ (linesText names constraints).toList))).head?,
          Alphabet.continuesName d = false := by
      rintro d hd
      obtain rfl := Option.some.inj hd
      decide +kernel
    have hline : ∀ d ∈ (linesText names constraints).toList.head?,
        d.isDigit = false ∧ d ≠ '.' := by
      intro d hd
      rw [head?_linesText constraints d hd]
      decide
    rw [htext, words_newline, expressionText, words_termsText true hterms hblank, words_blank rfl,
      words_symbol, words_compact hbound hline, ih hrest, linesWords, constraintWords]
    simp

theorem words_keyword (sense : Sense) (rest : List Char) :
    words (sense.keyword.toList ++ ' ' :: rest) =
      (keywordKind sense, sense.keyword) :: words rest := by
  have hword : ∀ {a b c : Char}, isBlank a = false → a.isDigit = false →
      Alphabet.beginsName a = true → Alphabet.continuesName b = true →
        Alphabet.continuesName c = true → words (a :: b :: c :: ' ' :: rest) =
          (wordKind [a, b, c], String.ofList [a, b, c]) :: words rest := by
    intro a b c hblank hdigit hbegins hb hc
    have hspace : Alphabet.continuesName ' ' = false := by decide +kernel
    have hrun : run Alphabet.continuesName (b :: c :: ' ' :: rest) = 2 := by
      simp [run, hb, hc, hspace]
    have hlexeme : lexeme a (b :: c :: ' ' :: rest) = (wordKind [a, b, c], 2) := by
      rw [lexeme_of_beginsName hdigit hbegins, restOfName, hrun]
      rfl
    rw [words_cons hblank hlexeme]
    exact congrArg _ (words_blank rfl)
  cases sense with
  | maximize => exact hword rfl rfl (by decide +kernel) (by decide +kernel) (by decide +kernel)
  | minimize => exact hword rfl rfl (by decide +kernel) (by decide +kernel) (by decide +kernel)

theorem words_text {p : Problem Float}
    (hobjective : ∀ t ∈ p.objective.coefficients.zip names, IsTerm t)
    (hconstraints : ∀ c ∈ p.constraints, IsPrintable names c) :
    words (p.text names).toList = (keywordKind p.objective.sense, p.objective.sense.keyword) ::
      termsWords true (p.objective.coefficients.zip names) ++ linesWords names p.constraints ++
        [(.eof, "")] := by
  have htext : (p.text names).toList = p.objective.sense.keyword.toList ++ ' ' ::
      ((expressionText p.objective.coefficients names).toList ++
        (linesText names p.constraints).toList) := by
    simp only [Problem.text, String.toList_append, List.append_assoc]
    rfl
  have hline : ∀ d ∈ (linesText names p.constraints).toList.head?,
      Alphabet.continuesName d = false := by
    intro d hd
    rw [head?_linesText p.constraints d hd]
    decide +kernel
  rw [htext, words_keyword, expressionText, words_termsText true hobjective hline,
    words_linesText hconstraints]
  simp

end Lexer

end LinearProgram

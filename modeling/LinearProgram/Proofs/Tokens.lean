import LinearProgram.Language.Parser
import LinearProgram.Proofs.Grammar
import Mathlib.Data.List.TakeWhile

/-! # The tokens of a text

A text ends with an end token and has no other. Every numeral in it reads as the number that it
stands for.
-/

namespace LinearProgram

open Grammar

variable {α : Type} [Scalar α]

namespace Parser

/-- Digits, perhaps with a point and more digits behind them. -/
theorem eq_of_decimalDigits? {cs digits : List Char} {places : ℕ}
    (h : decimalDigits? cs = some (digits, places)) :
    ∃ whole, (∀ c ∈ whole, c.isDigit = true) ∧
      (cs = whole ∧ digits = whole ∧ places = 0 ∨
        ∃ fraction, (∀ c ∈ fraction, c.isDigit = true) ∧ cs = whole ++ '.' :: fraction ∧
          digits = whole ++ fraction ∧ places = fraction.length) := by
  have hsplit := List.takeWhile_append_dropWhile (p := Char.isDigit) (l := cs)
  refine ⟨cs.takeWhile Char.isDigit, List.all_eq_true.mp List.all_takeWhile, ?_⟩
  unfold decimalDigits? at h
  dsimp only at h
  split at h
  · next hrest =>
    rw [hrest, List.append_nil] at hsplit
    split at h
    · cases h
    · obtain ⟨rfl, rfl⟩ := Prod.mk.inj (Option.some.inj h)
      exact Or.inl ⟨hsplit.symm, rfl, rfl⟩
  · next fraction hrest =>
    rw [hrest] at hsplit
    split at h
    · next hall =>
      obtain ⟨rfl, rfl⟩ := Prod.mk.inj (Option.some.inj h)
      rw [Bool.and_eq_true] at hall
      exact Or.inr ⟨fraction, List.all_eq_true.mp hall.1, hsplit.symm, rfl, rfl⟩
    · cases h
  · cases h

theorem dropWhile_ne_point {whole : List Char} (h : ∀ c ∈ whole, c.isDigit = true)
    (rest : List Char) :
    (whole ++ rest).dropWhile (· ≠ '.') = rest.dropWhile (· ≠ '.') := by
  rw [List.dropWhile_append_of_pos]
  intro c hc
  have hne : c ≠ '.' := by
    rintro rfl
    exact absurd (h _ hc) (by decide)
  simpa using hne

/-- A number that is read is the one that the numeral stands for. -/
theorem eq_numeral_of_number? {text : String} {x : α} (h : number? text = some x) :
    x = numeral text := by
  obtain ⟨⟨digits, places⟩, hdigits, rfl⟩ := Option.map_eq_some_iff.mp h
  obtain ⟨whole, hwhole, ⟨htext, rfl, rfl⟩ | ⟨fraction, hfraction, htext, rfl, rfl⟩⟩ :=
    eq_of_decimalDigits? hdigits
  · have hdrop := dropWhile_ne_point hwhole []
    rw [List.append_nil] at hdrop
    rw [numeral, htext, List.filter_eq_self.mpr hwhole, hdrop]
    rfl
  · have hpoint : ('.' :: fraction).filter Char.isDigit = fraction :=
      (List.filter_cons_of_neg (by decide)).trans (List.filter_eq_self.mpr hfraction)
    rw [numeral, htext, List.filter_append, List.filter_eq_self.mpr hwhole, hpoint,
      dropWhile_ne_point hwhole]
    rfl

/-- The tokens before the end of the text. -/
def beforeEnd (ts : List Token) : List Token := ts.takeWhile (·.kind ≠ .eof)

theorem beforeEnd_append {ts : List Token} (h : ∀ t ∈ ts, t.kind ≠ .eof) (rest : List Token) :
    beforeEnd (ts ++ rest) = ts ++ beforeEnd rest :=
  List.takeWhile_append_of_pos fun t ht => decide_eq_true (h t ht)

theorem beforeEnd_cons {t : Token} (h : t.kind ≠ .eof) (rest : List Token) :
    beforeEnd (t :: rest) = t :: beforeEnd rest :=
  List.takeWhile_cons_of_pos (decide_eq_true h)

theorem beforeEnd_of_eof {t : Token} (h : t.kind = .eof) (rest : List Token) :
    beforeEnd (t :: rest) = [] := by
  rw [beforeEnd, List.takeWhile_cons_of_neg]
  simpa using h

/-- The token reads as a number if it is one. -/
def IsLegible (t : Token) : Prop := t.kind = .number → (decimalDigits? t.text.toList).isSome

theorem IsLegible.number?_eq {t : Token} (h : IsLegible t) (ht : t.kind = .number) :
    number? t.text = some (numeral t.text : α) := by
  obtain ⟨digits, hdigits⟩ := Option.isSome_iff_exists.mp (h ht)
  cases hx : (number? t.text : Option α) with
  | none => simp [number?, hdigits] at hx
  | some x => rw [eq_numeral_of_number? hx]

section Numerals

variable {whole fraction : List Char} (hwhole : ∀ c ∈ whole, c.isDigit = true)

include hwhole

theorem isSome_decimalDigits?_whole (hne : whole ≠ []) : (decimalDigits? whole).isSome := by
  have htake : whole.takeWhile Char.isDigit = whole := List.takeWhile_eq_self_iff.mpr hwhole
  have hdrop : whole.dropWhile Char.isDigit = [] := List.dropWhile_eq_nil_iff.mpr hwhole
  simp [decimalDigits?, htake, hdrop, hne]

theorem isSome_decimalDigits?_point (hfraction : ∀ c ∈ fraction, c.isDigit = true)
    (hne : fraction ≠ []) : (decimalDigits? (whole ++ '.' :: fraction)).isSome := by
  have htake : (whole ++ '.' :: fraction).takeWhile Char.isDigit = whole := by
    rw [List.takeWhile_append_of_pos hwhole, List.takeWhile_cons_of_neg (by decide),
      List.append_nil]
  have hdrop : (whole ++ '.' :: fraction).dropWhile Char.isDigit = '.' :: fraction := by
    rw [List.dropWhile_append_of_pos hwhole, List.dropWhile_cons_of_neg (by decide)]
  have hall : fraction.all Char.isDigit = true := List.all_eq_true.mpr hfraction
  simp [decimalDigits?, htake, hdrop, hall, hne]

end Numerals

end Parser

namespace Lexer

section Runs

variable (p : Char → Bool) (cs : List Char)

theorem take_run : cs.take (run p cs) = cs.takeWhile p :=
  (List.prefix_iff_eq_take.mp (List.takeWhile_prefix p)).symm

theorem take_run_add (n : ℕ) :
    cs.take (run p cs + n) = cs.takeWhile p ++ (cs.drop (run p cs)).take n := by
  rw [List.take_add, take_run]

theorem drop_run : cs.drop (run p cs) = cs.dropWhile p := by
  have hsplit : cs.takeWhile p ++ cs.dropWhile p = cs := List.takeWhile_append_dropWhile
  calc cs.drop (run p cs)
      = (cs.takeWhile p ++ cs.dropWhile p).drop (cs.takeWhile p).length := by rw [hsplit, run]
    _ = cs.dropWhile p := List.drop_left

/-- A run stops where the test fails. -/
theorem eq_false_of_head?_drop_run : ∀ c ∈ (cs.drop (run p cs)).head?, p c = false := by
  intro c hc
  have hstop := List.head?_dropWhile_not p cs
  rw [← drop_run, Option.mem_def.mp hc] at hstop
  simpa using hstop

end Runs

theorem isDigit_of_mem_takeWhile {cs : List Char} :
    ∀ c ∈ cs.takeWhile Char.isDigit, c.isDigit = true :=
  fun _ hc => List.mem_takeWhile_imp hc

theorem take_decimalPart (cs : List Char) : cs.take (decimalPart cs) = [] ∨
    ∃ fraction, cs.take (decimalPart cs) = '.' :: fraction ∧
      (∀ c ∈ fraction, c.isDigit = true) ∧ fraction ≠ [] := by
  unfold decimalPart
  split
  · next cs =>
    split
    · exact Or.inl rfl
    · next hrun =>
      refine Or.inr ⟨cs.takeWhile Char.isDigit, ?_, isDigit_of_mem_takeWhile,
        List.ne_nil_of_length_pos (Nat.pos_of_ne_zero hrun)⟩
      rw [List.take_succ_cons, take_run]
  · exact Or.inl rfl

theorem wordKind_mem (word : List Char) : wordKind word ∈ [.max, .min, .ident] := by
  unfold wordKind
  dsimp only
  split_ifs <;> simp

theorem equality_mem (cs : List Char) : (equality cs).1 ∈ [.le, .ge, .eq] := by
  unfold equality
  split <;> simp

/-- A number begins with a point that has digits behind it, or with a digit. Nothing is cut off as
the end of the text. -/
theorem lexeme_cases (c : Char) (cs : List Char) :
    (c = '.' ∧ run Char.isDigit cs ≠ 0 ∧ lexeme c cs = (.number, run Char.isDigit cs)) ∨
      (c.isDigit = true ∧ lexeme c cs =
        (.number, run Char.isDigit cs + decimalPart (cs.drop (run Char.isDigit cs)))) ∨
      ((lexeme c cs).1 ≠ .number ∧ (lexeme c cs).1 ≠ .eof) := by
  have hequality : (equality cs).1 ≠ .number ∧ (equality cs).1 ≠ .eof := by
    constructor <;> intro h <;> simpa [h] using equality_mem cs
  have hword (word) : wordKind word ≠ .number ∧ wordKind word ≠ .eof := by
    constructor <;> intro h <;> simpa [h] using wordKind_mem word
  unfold lexeme
  split
  case h_18 => split <;> simp_all
  case h_19 => split_ifs <;> simp_all
  all_goals refine Or.inr (Or.inr ?_)
  case h_3 => split <;> exact ⟨nofun, nofun⟩
  case h_17 => exact hequality
  all_goals exact ⟨nofun, nofun⟩

/-- What is cut off as a number reads as one. -/
theorem isSome_decimalDigits?_lexeme {c : Char} {cs : List Char}
    (h : (lexeme c cs).1 = .number) :
    (Parser.decimalDigits? (c :: cs.take (lexeme c cs).2)).isSome := by
  obtain ⟨rfl, hrun, hl⟩ | ⟨hc, hl⟩ | ⟨hne, -⟩ := lexeme_cases c cs
  · rw [hl, take_run]
    exact @Parser.isSome_decimalDigits?_point [] _ nofun isDigit_of_mem_takeWhile
      (List.ne_nil_of_length_pos (Nat.pos_of_ne_zero hrun))
  · have hwhole : ∀ d ∈ c :: cs.takeWhile Char.isDigit, d.isDigit = true :=
      List.forall_mem_cons.mpr ⟨hc, isDigit_of_mem_takeWhile⟩
    rw [hl, take_run_add]
    obtain hnone | ⟨fraction, hpoint, hfraction, hne⟩ :=
      take_decimalPart (cs.drop (run Char.isDigit cs))
    · rw [hnone, List.append_nil]
      exact Parser.isSome_decimalDigits?_whole hwhole (List.cons_ne_nil _ _)
    · rw [hpoint, ← List.cons_append]
      exact Parser.isSome_decimalDigits?_point hwhole hfraction hne
  · exact absurd h hne

end Lexer

namespace Cursor

/-- What holds of every token but the last. -/
theorem next?_spec {c after : Cursor} {token : Token} (h : c.next? = some (token, after)) :
    token.kind ≠ .eof ∧ Parser.IsLegible token := by
  unfold next? at h
  dsimp only at h
  split at h
  · cases h
  · next first rest _ =>
    cases h
    refine ⟨?_, fun hnumber => ?_⟩
    · obtain ⟨-, -, hl⟩ | ⟨-, hl⟩ | ⟨-, hne⟩ := Lexer.lexeme_cases first rest
      · rw [hl]
        exact nofun
      · rw [hl]
        exact nofun
      · exact hne
    · rw [String.toList_ofList]
      exact Lexer.isSome_decimalDigits?_lexeme hnumber

theorem tokens_eq_append (c : Cursor) : ∃ ts eof, c.tokens = ts ++ [eof] ∧ eof.kind = .eof ∧
    ∀ t ∈ ts, t.kind ≠ .eof ∧ Parser.IsLegible t := by
  fun_induction tokens c with
  | case1 c => exact ⟨[], c.eof, rfl, rfl, nofun⟩
  | case2 c token after h _ ih =>
    obtain ⟨ts, eof, hts, heof, hall⟩ := ih
    refine ⟨token :: ts, eof, congrArg (token :: ·) hts, heof, ?_⟩
    exact List.forall_mem_cons.mpr ⟨next?_spec h, hall⟩

end Cursor

theorem beforeEnd_tokenize (source : String) :
    Parser.beforeEnd (tokenize source) = (tokenize source).filter (·.kind ≠ .eof) := by
  obtain ⟨ts, eof, hts, heof, hall⟩ := Cursor.tokens_eq_append ⟨0, source.toList⟩
  rw [tokenize, hts, Parser.beforeEnd_append fun t ht => (hall t ht).1,
    Parser.beforeEnd_of_eof heof, List.filter_append,
    List.filter_eq_self.mpr fun t ht => decide_eq_true (hall t ht).1,
    List.filter_cons_of_neg (by simpa using heof), List.filter_nil]

theorem isLegible_of_mem_tokenize {source : String} {t : Token} (h : t ∈ tokenize source) :
    Parser.IsLegible t := by
  obtain ⟨ts, eof, hts, heof, hall⟩ := Cursor.tokens_eq_append ⟨0, source.toList⟩
  rw [tokenize, hts, List.mem_append, List.mem_singleton] at h
  rcases h with ht | rfl
  · exact (hall t ht).2
  · intro hnumber
    rw [heof] at hnumber
    cases hnumber

end LinearProgram

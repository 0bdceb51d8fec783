import LinearProgram.Proofs.Diagnostics
import LinearProgram.Proofs.LoneChains
import LinearProgram.Proofs.TokenSpans

/-! # The shapes of tokens

A number is cut off with digits on both sides of its point, or on one side where the other may be
missing, so the parser never meets a number that it cannot read. A name is cut off as long as it
goes on.
-/

namespace LinearProgram

open Lexer

/-- Digits, at least one. -/
structure IsDigitRun (ds : List Char) : Prop where
  ne_nil : ds ≠ []
  isDigit : ∀ c ∈ ds, c.isDigit = true

/-- Digits with a point and digits behind them or without, or a point and digits. -/
inductive IsDecimal : List Char → Prop where
  | whole {ds : List Char} : IsDigitRun ds → IsDecimal ds
  | mixed {ds es : List Char} : IsDigitRun ds → IsDigitRun es → IsDecimal (ds ++ '.' :: es)
  | fraction {es : List Char} : IsDigitRun es → IsDecimal ('.' :: es)

/-- What stands behind the span. -/
def Span.behind (s : Span) (source : String) : String :=
  cut ⟨s.stop, source.utf8ByteSize⟩ source

/-- The token is a name or a keyword. -/
inductive TokenKind.IsWord : TokenKind → Prop where
  | ident : IsWord .ident
  | max : IsWord .max
  | min : IsWord .min

namespace Lexer

variable {c : Char} {cs : List Char}

theorem isDigitRun_takeWhile (h : run Char.isDigit cs ≠ 0) :
    IsDigitRun (cs.takeWhile Char.isDigit) :=
  ⟨List.ne_nil_of_length_pos (Nat.pos_of_ne_zero h), isDigit_of_mem_takeWhile⟩

/-- What is cut off as a number has the shape of one. -/
theorem isDecimal_lexeme (h : (lexeme c cs).1 = .number) :
    IsDecimal (c :: cs.take (lexeme c cs).2) := by
  obtain ⟨rfl, hrun, hl⟩ | ⟨hc, hl⟩ | ⟨hne, -⟩ := lexeme_cases c cs
  · rw [hl, take_run]
    exact .fraction (isDigitRun_takeWhile hrun)
  · have hwhole : IsDigitRun (c :: cs.takeWhile Char.isDigit) :=
      ⟨List.cons_ne_nil _ _, List.forall_mem_cons.mpr ⟨hc, isDigit_of_mem_takeWhile⟩⟩
    rw [hl, take_run_add]
    obtain hnone | ⟨fraction, hpoint, hfraction, hne⟩ :=
      take_decimalPart (cs.drop (run Char.isDigit cs))
    · rw [hnone, List.append_nil]
      exact .whole hwhole
    · rw [hpoint, ← List.cons_append]
      exact .mixed hwhole ⟨hne, hfraction⟩
  · exact absurd h hne

/-- What is cut off as a word begins like one and goes on as far as it can. -/
theorem lexeme_of_isWord (h : (lexeme c cs).1.IsWord) :
    Alphabet.beginsName c = true ∧ (lexeme c cs).2 = run Alphabet.continuesName cs := by
  have hequality : ¬ (equality cs).1.IsWord := fun hword => by
    have hmem := equality_mem cs
    generalize (equality cs).1 = kind at hword hmem
    cases hword <;> simp at hmem
  unfold lexeme at h ⊢
  split at h
  case h_19 =>
    split_ifs at h ⊢ with hdigit hname
    · exact nomatch h
    · exact ⟨hname, rfl⟩
    · exact nomatch h
  case h_17 => exact absurd h hequality
  case h_3 => split at h <;> exact nomatch h
  case h_18 => split at h <;> exact nomatch h
  all_goals exact nomatch h

end Lexer

namespace Cursor

variable {source : String} {c d : Cursor} {t : Token}

/-- Every token but the end is cut off somewhere in the source. -/
theorem IsAt.exists_step (hc : c.IsAt source) (ht : t ∈ c.tokens) :
    t.kind = .eof ∨ ∃ before after : Cursor, before.IsAt source ∧ Step before t after := by
  fun_induction tokens c with
  | case1 c _ =>
    obtain rfl := List.mem_singleton.mp ht
    exact .inl rfl
  | case2 c u d hsome _ ih =>
    have hstep := next?_eq_some_iff.mp hsome
    obtain rfl | ht := List.mem_cons.mp ht
    · exact .inr ⟨c, d, hc, hstep⟩
    · exact ih (hc.of_step hstep) ht

/-- Behind a token stands what is left. -/
theorem Step.behind_eq (h : Step c t d) (hc : c.IsAt source) :
    t.span.behind source = String.ofList d.rest := by
  obtain ⟨front, hfront, hposition⟩ := hc.of_step h
  have hsize : source.utf8ByteSize = byteLength front + byteLength d.rest := by
    rw [← byteLength_append, ← hfront, ← utf8ByteSize_ofList, String.ofList_toList]
  have hsource : source.toList = front ++ (d.rest ++ []) := by rw [hfront, List.append_nil]
  rw [Span.behind, h.stop_eq, hposition, hsize, (Span.isWithin_of_append hsource).2]

theorem Step.isDecimal (h : Step c t d) (ht : t.kind = .number) : IsDecimal t.text.toList := by
  obtain @⟨position, blanks, taken, rest, first, kind, -, -, hlexeme⟩ := h
  have hshape := @isDecimal_lexeme first (taken ++ rest) ((congrArg Prod.fst hlexeme).trans ht)
  rw [hlexeme, List.take_left] at hshape
  rwa [String.toList_ofList]

/-- A word begins like a name, and what is left does not go on with it. -/
theorem Step.of_isWord (h : Step c t d) (ht : t.kind.IsWord) :
    (∃ x ∈ t.text.toList.head?, Alphabet.beginsName x = true) ∧
      ∀ x ∈ d.rest.head?, Alphabet.continuesName x = false := by
  obtain @⟨position, blanks, taken, rest, first, kind, -, -, hlexeme⟩ := h
  have hkind : (lexeme first (taken ++ rest)).1.IsWord := by rwa [hlexeme]
  obtain ⟨hbegins, hrun⟩ := lexeme_of_isWord hkind
  rw [hlexeme] at hrun
  refine ⟨⟨first, by rw [String.toList_ofList]; rfl, hbegins⟩, fun x hx => ?_⟩
  apply eq_false_of_head?_drop_run _ (taken ++ rest)
  rwa [← hrun, List.drop_left]

end Cursor

/-- No error about the tokens of a text is about a number. -/
theorem ParseError.IsAmong.ne_invalidNumber {source text : String} {e : ParseError}
    (h : e.IsAmong (tokenize source)) : e ≠ .invalidNumber text := by
  rintro rfl
  obtain ⟨t, ht, -, hread⟩ := h
  exact hread (isLegible_of_mem_tokenize ht)

/-- In every text the numbers have the shape of decimals, so neither parser meets one that it cannot
read, and a name or keyword begins with a letter or an underscore and does not end before another
letter, numeral or underscore. -/
theorem tokenize_shapes {α : Type} [Scalar α] (source : String) :
    (∀ t ∈ tokenize source, t.kind = .number → IsDecimal t.text.toList) ∧
      (∀ text, (Program.parse source : Except ParseError (Program α)) ≠
        .error (.invalidNumber text)) ∧
      (∀ text, (ConstraintStatement.parse source :
        Except ParseError (List (ConstraintStatement α))) ≠ .error (.invalidNumber text)) ∧
      ∀ t ∈ tokenize source, t.kind.IsWord →
        (∃ c ∈ t.text.toList.head?, Alphabet.isLetter c = true ∨ c = '_') ∧
        ∀ c ∈ (t.span.behind source).toList.head?,
          ¬ (Alphabet.isLetter c = true ∨ Alphabet.isNumeral c = true ∨ c = '_') := by
  have hstart := Cursor.isAt_start source
  refine ⟨fun t ht hnumber => ?_, fun text herror => ?_, fun text herror => ?_,
    fun t ht hword => ?_⟩
  · obtain heof | ⟨before, after, -, hstep⟩ := hstart.exists_step ht
    · rw [heof] at hnumber
      cases hnumber
    · exact hstep.isDecimal hnumber
  · exact (Program.raises_parse source _ herror).ne_invalidNumber rfl
  · exact (Parser.failsIn_loneChain _ _ herror).ne_invalidNumber rfl
  · obtain heof | ⟨before, after, hat, hstep⟩ := hstart.exists_step ht
    · rw [heof] at hword
      cases hword
    · obtain ⟨⟨c, hc, hbegins⟩, hends⟩ := hstep.of_isWord hword
      refine ⟨⟨c, hc, by simpa [Alphabet.beginsName] using hbegins⟩, fun x hx hgoes => ?_⟩
      rw [hstep.behind_eq hat, String.toList_ofList] at hx
      have hstop := hends x hx
      rcases hgoes with hgoes | hgoes | rfl
      · simp [Alphabet.continuesName, hgoes] at hstop
      · simp [Alphabet.continuesName, hgoes] at hstop
      · simp [Alphabet.continuesName] at hstop

theorem tokenize_shapes_gluedText : IsDecimal ".2".toList ∧
    ∀ c ∈ (Span.behind ⟨4, 6⟩ "1..2x_*3").toList.head?,
      ¬ (Alphabet.isLetter c = true ∨ Alphabet.isNumeral c = true ∨ c = '_') := by
  obtain ⟨hnumber, -, -, hword⟩ := @tokenize_shapes Float _ "1..2x_*3"
  have hfraction : (⟨.number, ⟨2, 4⟩, ".2"⟩ : Token) ∈ tokenize "1..2x_*3" := by decide +kernel
  have hname : (⟨.ident, ⟨4, 6⟩, "x_"⟩ : Token) ∈ tokenize "1..2x_*3" := by decide +kernel
  exact ⟨hnumber _ hfraction rfl, (hword _ hname .ident).2⟩

example : (tokenize "1. 1..2 .5.5 2x").map (fun t => (t.kind, t.text)) =
    [(.number, "1"), (.error, "."), (.number, "1"), (.error, "."), (.number, ".2"),
      (.number, ".5"), (.number, ".5"), (.number, "2"), (.ident, "x"), (.eof, "")] := by
  decide +kernel

end LinearProgram

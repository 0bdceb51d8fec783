import LinearProgram.Proofs.AcceptedTexts
import LinearProgram.Proofs.Layout.Content
import LinearProgram.Proofs.Layout.Erasure
import LinearProgram.Proofs.Layout.Lines

/-! # Changes of layout

The content of a text decides its program up to positions. So comments may be deleted, blanks put in
between tokens, and line feeds written with carriage returns; and lines without content may be put in
between others.
-/

namespace LinearProgram

open Grammar Lexer

variable {α : Type} [Scalar α] {source source' : String}

section Content

theorem endsLine_beforeEnd {c : Cursor} (h : ∀ d ∈ c.rest.head?, d = '\n') :
    EndsLine (Parser.beforeEnd c.tokens) := by
  obtain ⟨position, cs⟩ := c
  cases cs with
  | nil =>
    rw [Cursor.tokens_of_none rfl, Parser.beforeEnd_of_eof rfl]
    trivial
  | cons d rest =>
    obtain rfl := h d rfl
    have hstep := @Cursor.Step.mk position [] [] rest '\n' .newline (by simp) rfl rfl
    rw [show (Cursor.mk position ('\n' :: rest)).tokens = _ from hstep.tokens_eq,
      Parser.beforeEnd_cons (t := ⟨.newline, _, _⟩) (by simp)]
    exact .inl rfl

/-- The line ends behind a comment. -/
theorem Cursor.Step.endsLine {c d : Cursor} {t : Token} (h : Step c t d) (ht : t.kind = .comment) :
    EndsLine (Parser.beforeEnd d.tokens) := by
  obtain @⟨position, blanks, taken, rest, first, kind, -, -, hlexeme⟩ := h
  apply endsLine_beforeEnd
  have hcomment : (lexeme first (taken ++ rest)).1 = .comment := by rw [hlexeme]; exact ht
  have hrun := lexeme_of_comment hcomment []
  rw [List.append_nil, hlexeme] at hrun
  intro d hd
  have hstop := eq_false_of_head?_drop_run (· != '\n') (taken ++ rest) d
  rw [← (Prod.mk.inj hrun).2, List.drop_left] at hstop
  simpa using hstop hd

theorem commentsEndLines_beforeEnd (c : Cursor) : CommentsEndLines (Parser.beforeEnd c.tokens) := by
  fun_induction Cursor.tokens c with
  | case1 c hc => 
    rw [Parser.beforeEnd_of_eof rfl]
    trivial
  | case2 c t d hd _ ih =>
    rw [Parser.beforeEnd_cons (Cursor.next?_spec hd).1]
    exact ⟨(Cursor.next?_eq_some_iff.mp hd).endsLine, ih⟩

theorem map_word_code (source : String) :
    (code (Parser.beforeEnd (tokenize source))).map word = content source.toList := by
  have hwords : words source.toList = (tokenize source).map word := rfl
  have hkinds : ∀ t : Token, decide ((word t).1 ≠ .comment ∧ (word t).1 ≠ .eof) =
      (decide (t.kind ≠ .comment) && decide (t.kind ≠ .eof)) := fun t => Bool.decide_and _ _
  rw [beforeEnd_tokenize, code, List.filter_filter, content, hwords, List.filter_map]
  simp only [Function.comp_def, hkinds]

end Content

namespace Program

/-- The program of a text up to positions, none if the text is rejected. -/
def reading (source : String) : Option (Program α) := (parse source).toOption.map erase

theorem reading_eq_some_iff {program : Program α} : reading source = some program ↔
    ∃ found, parse source = .ok found ∧ found.erase = program := by
  rw [reading]
  cases (parse source : Except ParseError (Program α)) with
  | error e => simp [Except.toOption]
  | ok found => simp [Except.toOption]

/-- A text is read as the statements that its content spells. -/
theorem reading_iff_content {program : Program α} : reading source = some program ↔
    ∃ ts ss, ts.map word = content source.toList ∧ Derives ts ss ∧ erase ⟨ss⟩ = program := by
  have hcode : ∀ {ss : List (Statement α)}, Derives (code (Parser.beforeEnd (tokenize source))) ss ↔
      parse source = .ok ⟨ss⟩ := fun {ss} =>
    (derives_code_iff (commentsEndLines_beforeEnd _)).trans parse_iff_derives.symm
  rw [reading_eq_some_iff]
  constructor
  · rintro ⟨found, hfound, rfl⟩
    exact ⟨_, found.statements, map_word_code source, hcode.mpr hfound, rfl⟩
  · rintro ⟨ts, ss, hwords, hss, rfl⟩
    obtain ⟨found, hfound, herase⟩ := hss.of_words ((map_word_code source).trans hwords.symm)
    exact ⟨⟨found⟩, hcode.mp hfound, congrArg mk herase⟩

theorem reading_congr (h : content source'.toList = content source.toList) :
    (reading source' : Option (Program α)) = reading source := by
  ext program
  rw [reading_iff_content, reading_iff_content, h]

end Program

namespace Lexer

/-- The characters end where a line begins. -/
def AtLineStart (before : List Char) : Prop := ∀ c ∈ before.getLast?, c = '\n'

/-- The characters begin where a line ends. -/
def AtLineEnd (after : List Char) : Prop := ∀ c ∈ after.head?, c = '\n'

/-- A change of the layout of a text. -/
inductive Relayout : List Char → List Char → Prop where
  /-- The comment of a line is deleted. -/
  | comment {before line after} : AtLineStart before → '\n' ∉ line → AtLineEnd after →
      Relayout (before ++ (line ++ after)) (before ++ (uncommented line ++ after))
  /-- Blanks are put in where no token stands. -/
  | blanks {before blanks after} : (∀ c ∈ blanks, isBlank c = true) → IsCut 0 before after →
      Relayout (before ++ after) (before ++ (blanks ++ after))
  /-- Lines end in a carriage return and a line feed. -/
  | returns {cs} : Relayout cs (carriageReturns cs)
  /-- A line that is empty but for blanks and a comment is put in. -/
  | line {before line after} : AtLineStart before → '\n' ∉ line →
      (∀ c ∈ uncommented line, isBlank c = true) →
      Relayout (before ++ after) (before ++ (line ++ '\n' :: after))

variable {before line after : List Char}

theorem content_of_atLineStart (h : AtLineStart before) :
    ∃ ws, (∀ w ∈ ws.getLast?, w = (.newline, "\n")) ∧
      ∀ rest, content (before ++ rest) = ws ++ content rest := by
  obtain rfl | ⟨front, c, rfl⟩ := List.eq_nil_or_concat' before
  · exact ⟨[], by simp, fun _ => rfl⟩
  · obtain rfl : c = '\n' := h c (by simp)
    refine ⟨content front ++ [(.newline, "\n")], by simp, fun rest => ?_⟩
    rw [List.append_assoc, List.append_assoc]
    exact content_line front rest

theorem content_of_isBlank (hline : '\n' ∉ line) (h : ∀ c ∈ uncommented line, isBlank c = true) :
    content line = [] := by
  rw [← content_uncommented hline, ← List.append_nil (uncommented line), content_blanks h,
    content_nil]

end Lexer

namespace Program

theorem reading_insert {ws rest : List (TokenKind × String)}
    (hws : ∀ w ∈ ws.getLast?, w = (.newline, "\n")) (h : content source.toList = ws ++ rest)
    (h' : content source'.toList = ws ++ (.newline, "\n") :: rest) :
    (reading source' : Option (Program α)) = reading source := by
  have hlayout : ∀ {ts : List Token}, ts.map word = ws → ∀ t ∈ ts.getLast?, IsLayout t := by
    rintro ts rfl t ht
    have hword := hws (word t) (by simpa using ⟨t, ht, rfl⟩)
    exact .inl (congrArg Prod.fst hword)
  ext program
  rw [reading_iff_content, reading_iff_content, h, h']
  constructor
  · rintro ⟨ts, ss, hwords, hss, rfl⟩
    obtain ⟨left, t, right, rfl, hleft, ht, hright⟩ := exists_of_map_eq_append_cons hwords
    refine ⟨left ++ right, ss, by rw [List.map_append, hleft, hright], ?_, rfl⟩
    exact (derives_insert_iff (hlayout hleft) (.inl (congrArg Prod.fst ht))).mp hss
  · rintro ⟨ts, ss, hwords, hss, rfl⟩
    obtain ⟨left, right, rfl, hleft, hright⟩ := List.map_eq_append_iff.mp hwords
    refine ⟨left ++ ⟨.newline, ⟨0, 0⟩, "\n"⟩ :: right, ss, ?_, ?_, rfl⟩
    · rw [List.map_append, List.map_cons, hleft, hright]
      rfl
    · exact (derives_insert_iff (hlayout hleft) (.inl rfl)).mpr hss

/-- A change of layout leaves a text accepted or rejected as it was, and its program the same up to
positions. -/
theorem reading_relayout (h : Relayout source.toList source'.toList) :
    (reading source' : Option (Program α)) = reading source := by
  generalize hcs : source.toList = cs at h
  generalize hds : source'.toList = ds at h
  cases h with
  | @comment before line after hbefore hline hafter =>
    obtain ⟨ws, -, hws⟩ := content_of_atLineStart hbefore
    apply reading_congr
    rw [hcs, hds, hws, hws, content_append hafter, content_append hafter,
      content_uncommented hline]
  | blanks hblanks hcut =>
    apply reading_congr
    rw [hcs, hds, content_insert hblanks hcut]
  | returns =>
    apply reading_congr
    rw [hcs, hds, content_carriageReturns]
  | @line before line after hbefore hline hblank =>
    obtain ⟨ws, hlast, hws⟩ := content_of_atLineStart hbefore
    apply reading_insert hlast
    · rw [hcs, hws]
    · rw [hds, hws, content_line, content_of_isBlank hline hblank]
      rfl

theorem reading_relayout_profit :
    (reading "max x\nx<=4" : Option (Program ℚ)).isSome = true ∧
    (reading "max x // profit\nx<=4" : Option (Program ℚ)) = reading "max x \nx<=4" ∧
    (reading "max  x\nx<=4" : Option (Program ℚ)) = reading "max x\nx<=4" ∧
    (reading "max x\r\nx<=4" : Option (Program ℚ)) = reading "max x\nx<=4" ∧
    (reading "max x\n # bounds\nx<=4" : Option (Program ℚ)) = reading "max x\nx<=4" := by
  have hcomment : Relayout "max x // profit\nx<=4".toList "max x \nx<=4".toList :=
    @Relayout.comment [] "max x // profit".toList "\nx<=4".toList (by simp [AtLineStart])
      (by decide) (by simp [AtLineEnd])
  have hcut : IsCut 0 ['m', 'a', 'x'] [' ', 'x', '\n', 'x', '<', '=', '4'] := by
    unfold IsCut
    decide +kernel
  have hblanks : Relayout "max x\nx<=4".toList "max  x\nx<=4".toList :=
    @Relayout.blanks _ [' '] _ (by simp [isBlank]) hcut
  have hreturns : Relayout "max x\nx<=4".toList "max x\r\nx<=4".toList := .returns
  have hline : Relayout "max x\nx<=4".toList "max x\n # bounds\nx<=4".toList :=
    @Relayout.line "max x\n".toList " # bounds".toList "x<=4".toList (by simp [AtLineStart])
      (by decide) (by simp [uncommented, isBlank])
  exact ⟨by decide +kernel, (reading_relayout hcomment).symm, reading_relayout hblanks,
    reading_relayout hreturns, reading_relayout hline⟩

end Program

end LinearProgram

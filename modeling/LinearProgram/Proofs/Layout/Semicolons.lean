import LinearProgram.Proofs.Layout.LastStatement

/-! # Semicolons at the ends of lines

A semicolon at the end of a line closes an objective, and changes nothing else. Behind constraints it
asks for another chain, so a line of constraints must not end in one.
-/

namespace LinearProgram

open Grammar

namespace Lexer

variable {c : Char} {cs ds rest : List Char}

/-- Blanks and a comment at most stand behind the body of a line, and the body does not end in a
semicolon. -/
structure EndsBody (before body rest after : List Char) : Prop where
  atLineStart : AtLineStart before
  atLineEnd : AtLineEnd after
  not_mem : '\n' ∉ body ++ rest
  uncommented_eq : ∃ blanks, (∀ c ∈ blanks, isBlank c = true) ∧
    uncommented (body ++ rest) = body ++ blanks
  last : ∃ c ∈ body.getLast?, isBlank c = false ∧ c ≠ ';'

/-- What is kept of a line is kept up to a comment. -/
theorem of_uncommented_cons (h : uncommented (c :: cs) = c :: ds) :
    uncommented cs = ds ∧ c ≠ '#' ∧ ¬ (c = '/' ∧ cs.head? = some '/') := by
  generalize hes : c :: cs = es at h
  revert h
  fun_cases uncommented es with
  | case1 => cases hes
  | case2 => simp
  | case3 => simp
  | case4 d es hhash hslash =>
    obtain ⟨rfl, rfl⟩ := List.cons.inj hes
    intro h
    refine ⟨(List.cons.inj h).2, hhash, ?_⟩
    rintro ⟨rfl, hhead⟩
    obtain ⟨rest, rfl⟩ := List.head?_eq_some_iff.mp hhead
    exact hslash rest rfl rfl

theorem of_uncommented_append {taken : List Char} (h : uncommented (taken ++ cs) = taken ++ ds) :
    uncommented taken = taken ∧ uncommented cs = ds := by
  induction taken with
  | nil => exact ⟨rfl, h⟩
  | cons c taken ih =>
    obtain ⟨hrest, hhash, hslash⟩ := of_uncommented_cons h
    obtain ⟨htaken, hcs⟩ := ih hrest
    refine ⟨?_, hcs⟩
    rw [uncommented.eq_4, htaken]
    · exact hhash
    · rintro rest rfl rfl
      exact hslash ⟨rfl, rfl⟩

theorem lexeme_of_uncommented (h : uncommented (c :: cs) = c :: cs) :
    uncommented cs = cs ∧ (lexeme c cs).1 ≠ .comment := by
  obtain ⟨hcs, hhash, hslash⟩ := of_uncommented_cons h
  refine ⟨hcs, fun hcomment => ?_⟩
  obtain hmark | hmark := mark_of_comment hcomment
  · exact hhash hmark
  · exact hslash hmark

/-- Tokens are taken off a text without comments, and leave one. -/
theorem uncommented_drop (h : uncommented (c :: cs) = c :: cs) :
    uncommented (cs.drop (lexeme c cs).2) = cs.drop (lexeme c cs).2 := by
  obtain ⟨hcs, hcomment⟩ := lexeme_of_uncommented h
  obtain ⟨-, hplain⟩ := survives_lexeme c cs hcomment
  have hdrop := (take_drop_uncommented ((isLocal_lexeme c).le_length cs) hplain).2
  rw [hcs] at hdrop
  exact hdrop.symm

theorem content_semicolon (h : uncommented cs = cs) (rest : List Char) :
    content (cs ++ ';' :: rest) = content cs ++ (.semicolon, ";") :: content rest := by
  induction cs using textInduction with
  | nil =>
    rw [content_nil]
    exact content_cons rfl rfl
  | blank c cs hblank ih =>
    rw [List.cons_append, content_blank hblank, content_blank hblank,
      ih (lexeme_of_uncommented h).1]
  | token c cs hblank ih =>
    have hrest := ih (uncommented_drop h)
    obtain ⟨kind, n, hcut⟩ : ∃ kind n, lexeme c cs = (kind, n) := ⟨_, _, rfl⟩
    have hlexeme : lexeme c (cs ++ ';' :: rest) = (kind, n) := by
      rw [← hcut]
      apply stops_lexeme c
      rintro d ⟨⟩
      exact ⟨.inr (.inl rfl), fun _ => (lexeme_of_uncommented h).2⟩
    have hle := (isLocal_lexeme c).le_length cs
    rw [hcut] at hle hrest
    rw [List.cons_append, content_cons hblank hlexeme, content_cons hblank hcut,
      List.take_append_of_le_length hle, List.drop_append_of_le_length hle, hrest,
      List.append_assoc]

theorem eq_of_breaking {kind : TokenKind} {n : ℕ} (h : lexeme c cs = (kind, n))
    (hkind : kind ∈ [.newline, .semicolon]) : c = '\n' ∨ c = ';' ∧ n = 0 := by
  have hother : ∀ k ∈ [TokenKind.newline, .semicolon],
      k ∉ [TokenKind.le, .ge, .eq] ∧ k ∉ [TokenKind.max, .min, .ident] := by decide
  unfold lexeme at h
  split at h
  case h_1 => exact .inl rfl
  case h_10 => exact .inr ⟨rfl, (Prod.mk.inj h).2.symm⟩
  case h_3 =>
    split at h <;> obtain ⟨rfl, -⟩ := Prod.mk.inj h <;> simp at hkind
  case h_17 =>
    have hmem := equality_mem cs
    rw [h] at hmem
    exact absurd hmem (hother kind hkind).1
  case h_18 =>
    split at h <;> obtain ⟨rfl, -⟩ := Prod.mk.inj h <;> simp at hkind
  case h_19 =>
    split_ifs at h
    · obtain ⟨rfl, -⟩ := Prod.mk.inj h
      simp at hkind
    · obtain ⟨hword, -⟩ := Prod.mk.inj h
      have hmem := wordKind_mem (c :: cs.take (run Alphabet.continuesName cs))
      rw [hword] at hmem
      exact absurd hmem (hother kind hkind).2
    · obtain ⟨rfl, -⟩ := Prod.mk.inj h
      simp at hkind
  all_goals
    obtain ⟨rfl, -⟩ := Prod.mk.inj h
    simp at hkind

/-- The last word of a body is no break. -/
theorem exists_getLast?_content (h : uncommented cs = cs) (hline : '\n' ∉ cs)
    (hlast : ∃ c ∈ cs.getLast?, isBlank c = false ∧ c ≠ ';') :
    ∃ w ∈ (content cs).getLast?, w.1 ∉ [.newline, .semicolon] ∧ w.1 ≠ .comment := by
  induction cs using textInduction with
  | nil => simp at hlast
  | blank c cs hblank ih =>
    rw [content_blank hblank]
    apply ih (lexeme_of_uncommented h).1 fun hmem => hline (List.mem_cons_of_mem c hmem)
    cases cs with
    | nil => simp [hblank] at hlast
    | cons d cs => simpa [List.getLast?_cons] using hlast
  | token c cs hblank ih =>
    obtain ⟨kind, n, hcut⟩ : ∃ kind n, lexeme c cs = (kind, n) := ⟨_, _, rfl⟩
    have hcomment := (lexeme_of_uncommented h).2
    have hdrop := uncommented_drop h
    rw [hcut] at ih hcomment hdrop
    rw [content_cons hblank hcut, if_neg hcomment, List.singleton_append]
    by_cases hn : cs.length ≤ n
    · rw [List.drop_of_length_le hn, content_nil]
      refine ⟨_, rfl, fun hkind => ?_, hcomment⟩
      obtain rfl | ⟨rfl, rfl⟩ := eq_of_breaking hcut hkind
      · exact hline (.head cs)
      · obtain rfl := List.length_eq_zero_iff.mp (Nat.le_zero.mp hn)
        simp at hlast
    · have hrest : ∃ d ∈ (cs.drop n).getLast?, isBlank d = false ∧ d ≠ ';' := by
        rw [List.getLast?_drop, if_neg hn]
        cases cs with
        | nil => simp at hn
        | cons d cs => simpa [List.getLast?_cons] using hlast
      obtain ⟨w, hw, hkind⟩ := ih hdrop
        (fun hmem => hline (List.mem_cons_of_mem c (List.mem_of_mem_drop hmem))) hrest
      refine ⟨w, ?_, hkind⟩
      rw [List.getLast?_cons, Option.mem_def.mp hw]
      rfl

namespace EndsBody

variable {before body after : List Char} (h : EndsBody before body rest after)

include h

theorem uncommented_body : uncommented body = body := by
  obtain ⟨blanks, -, hcode⟩ := h.uncommented_eq
  exact (of_uncommented_append hcode).1

theorem content_rest : content rest = [] := by
  obtain ⟨blanks, hblanks, hcode⟩ := h.uncommented_eq
  have hrest := (of_uncommented_append hcode).2
  apply content_of_isBlank
  · exact fun hmem => h.not_mem (List.mem_append_right body hmem)
  · rw [hrest]
    exact hblanks

/-- The line has the content of its body. -/
theorem content_line : content (body ++ rest) = content body := by
  obtain ⟨blanks, hblanks, hcode⟩ := h.uncommented_eq
  rw [← content_uncommented h.not_mem, hcode, content_append_blanks hblanks]

theorem content_inserted :
    content (body ++ ';' :: rest) = content body ++ [(.semicolon, ";")] := by
  rw [content_semicolon h.uncommented_body, h.content_rest]

/-- The words of a text before the end of the body, with and without a semicolon there. -/
theorem exists_words : ∃ ws, content (before ++ body) = ws ++ content body ∧
    content (before ++ (body ++ (rest ++ after))) = (ws ++ content body) ++ content after ∧
    content (before ++ (body ++ ';' :: (rest ++ after))) =
      (ws ++ content body) ++ (.semicolon, ";") :: content after := by
  obtain ⟨ws, -, hws⟩ := content_of_atLineStart h.atLineStart
  refine ⟨ws, hws body, ?_, ?_⟩
  · rw [hws, ← List.append_assoc, content_append h.atLineEnd, h.content_line, List.append_assoc]
  · rw [hws, ← List.cons_append, ← List.append_assoc, content_append h.atLineEnd,
      h.content_inserted]
    simp

theorem endsLine {right : List Token} (hright : right.map word = content after) :
    EndsLine right := by
  cases right with
  | nil => trivial
  | cons t right =>
    cases after with
    | nil =>
      rw [content_nil] at hright
      cases hright
    | cons d after =>
      obtain rfl := h.atLineEnd d rfl
      rw [content_newline] at hright
      exact .inl (congrArg Prod.fst (List.cons.inj hright).1)

/-- The last token of the body is that of a statement. -/
theorem exists_last {left : List Token} {ws : List (TokenKind × String)}
    (hleft : left.map word = ws ++ content body) : ∃ t ∈ left.getLast?, ¬ Breaks t := by
  have hbody : '\n' ∉ body := fun hmem => h.not_mem (List.mem_append_left rest hmem)
  obtain ⟨w, hw, hkind, hcomment⟩ := exists_getLast?_content h.uncommented_body hbody h.last
  have hmap : (left.map word).getLast? = some w := by
    rw [hleft, List.getLast?_append, Option.mem_def.mp hw]
    rfl
  rw [List.getLast?_map] at hmap
  obtain ⟨t, ht, rfl⟩ := Option.map_eq_some_iff.mp hmap
  refine ⟨t, ht, ?_⟩
  rintro ((hk | hk) | hk)
  · exact hkind (by simp [word, hk])
  · exact hcomment hk
  · exact hkind (by simp [word, hk])

end EndsBody

end Lexer

namespace Program

open Lexer

variable {α : Type} [Scalar α] {source source' : String} {before body rest after : List Char}

/-- A text whose words do not derive anything is rejected. -/
theorem reading_eq_none {ts : List Token} (hwords : ts.map word = content source.toList)
    (hreject : ∀ ss : List (Statement α), ¬ Derives ts ss) :
    (reading source : Option (Program α)) = none := by
  rw [Option.eq_none_iff_forall_ne_some]
  rintro found hfound
  obtain ⟨us, ss, hus, hss, -⟩ := reading_iff_content.mp hfound
  obtain ⟨ss', hss', -⟩ := hss.of_words (hwords.trans hus.symm)
  exact hreject ss' hss'

/-- A semicolon is put in at the end of a line of an accepted text. What stands before it is accepted
by itself. If its last statement is an objective, the semicolon changes nothing but positions; if it
is a constraint, the text is rejected with the semicolon. -/
theorem reading_semicolon (h : EndsBody before body rest after)
    (hsource : source.toList = before ++ (body ++ (rest ++ after)))
    (hsource' : source'.toList = before ++ (body ++ ';' :: (rest ++ after)))
    {program : Program α} (haccepted : reading source = some program) :
    ∃ front : Program α, reading (String.ofList (before ++ body)) = some front ∧
      front.statements <+: program.statements ∧
      ((∃ o, front.statements.getLast? = some (.objective o)) ∧ reading source' = some program ∨
        (∃ c, front.statements.getLast? = some (.constraint c)) ∧
          (reading source' : Option (Program α)) = none) := by
  obtain ⟨ws, hfront, hcontent, hcontent'⟩ := h.exists_words
  obtain ⟨ts, ss, hwords, hss, rfl⟩ := reading_iff_content.mp haccepted
  rw [hsource, hcontent] at hwords
  obtain ⟨left, right, rfl, hleft, hright⟩ := List.map_eq_append_iff.mp hwords
  let s : Token := ⟨.semicolon, ⟨0, 0⟩, ";"⟩
  have hinserted : (left ++ s :: right).map word = content source'.toList := by
    rw [List.map_append, List.map_cons, hleft, hright, hsource', hcontent']
    rfl
  have hfront' : left.map word = content (String.ofList (before ++ body)).toList := by
    rw [String.toList_ofList, hfront, hleft]
  obtain ⟨ss₁, ss₂, rfl, hss₁, hcases⟩ :=
    hss.insert_semicolon (s := s) rfl (h.endsLine hright) (h.exists_last hleft)
  refine ⟨erase ⟨ss₁⟩, reading_iff_content.mpr ⟨left, ss₁, hfront', hss₁, rfl⟩,
    ⟨ss₂.map (Statement.relocate fun _ => 0), List.map_append.symm⟩, ?_⟩
  have hgetLast : (erase ⟨ss₁⟩ : Program α).statements.getLast? =
      ss₁.getLast?.map (Statement.relocate fun _ => 0) := List.getLast?_map
  obtain ⟨⟨o, ho⟩, haccept⟩ | ⟨⟨c, hc⟩, hreject⟩ := hcases
  · refine .inl ⟨⟨o.relocate fun _ => 0, by rw [hgetLast, ho]; rfl⟩, ?_⟩
    exact reading_iff_content.mpr ⟨_, _, hinserted, haccept, rfl⟩
  · exact .inr ⟨⟨c.relocate fun _ => 0, by rw [hgetLast, hc]; rfl⟩,
      reading_eq_none hinserted hreject⟩

theorem endsBody_objective :
    EndsBody [] ['m', 'a', 'x', ' ', 'x'] [] ['\n', 'x', '<', '=', '4'] where
  atLineStart := by simp [AtLineStart]
  atLineEnd := by simp [AtLineEnd]
  not_mem := by decide
  uncommented_eq := ⟨[], by simp, by simp [uncommented]⟩
  last := by simp [isBlank]

theorem endsBody_constraint :
    EndsBody ['m', 'a', 'x', ' ', 'x', '\n'] ['x', '<', '=', '4'] [] [] where
  atLineStart := by simp [AtLineStart]
  atLineEnd := by simp [AtLineEnd]
  not_mem := by decide
  uncommented_eq := ⟨[], by simp, by simp [uncommented]⟩
  last := by simp [isBlank]

/-- Either line of a text with an objective and a constraint may get a semicolon: one of them is
accepted. -/
theorem reading_semicolon_bounded : ∃ program : Program ℚ,
    reading "max x\nx<=4" = some program ∧ reading "max x;\nx<=4" = some program ∧
      (reading "max x\nx<=4;" : Option (Program ℚ)) = none := by
  have haccepted : (reading "max x\nx<=4" : Option (Program ℚ)).isSome = true := by
    decide +kernel
  obtain ⟨program, hprogram⟩ := Option.isSome_iff_exists.mp haccepted
  obtain ⟨front, hfront, -, ⟨-, hobjective⟩ | ⟨-, hnone⟩⟩ := reading_semicolon
    endsBody_objective rfl (rfl : "max x;\nx<=4".toList = _) hprogram
  · obtain ⟨front', -, -, ⟨-, hsome⟩ | ⟨-, hconstraint⟩⟩ := reading_semicolon
      endsBody_constraint rfl (rfl : "max x\nx<=4;".toList = _) hprogram
    · have hrejected : (reading "max x\nx<=4;" : Option (Program ℚ)).isSome = false := by
        decide +kernel
      rw [hsome] at hrejected
      cases hrejected
    · exact ⟨program, hprogram, hobjective, hconstraint⟩
  · have haccepted' : (reading "max x;\nx<=4" : Option (Program ℚ)).isSome = true := by
      decide +kernel
    rw [hnone] at haccepted'
    cases haccepted'

/-- A semicolon may not end every statement: behind a constraint the text is rejected. -/
theorem not_semicolon_ends_every_statement :
    ¬ ∀ {source source' : String} {before body rest after : List Char},
      EndsBody before body rest after → source.toList = before ++ (body ++ (rest ++ after)) →
        source'.toList = before ++ (body ++ ';' :: (rest ++ after)) →
          (reading source : Option (Program ℚ)).isSome = true →
            (reading source' : Option (Program ℚ)) = reading source := by
  intro h
  have haccepted : (reading "max x\nx<=4" : Option (Program ℚ)).isSome = true := by
    decide +kernel
  have hrejected : (reading "max x\nx<=4;" : Option (Program ℚ)).isSome = false := by
    decide +kernel
  have hsource : "max x\nx<=4".toList = ['m', 'a', 'x', ' ', 'x', '\n'] ++ _ := rfl
  rw [h endsBody_constraint hsource rfl haccepted, haccepted] at hrejected
  cases hrejected

end Program

end LinearProgram

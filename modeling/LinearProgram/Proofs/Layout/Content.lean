import LinearProgram.Proofs.PrintedTokens
import LinearProgram.Proofs.Positions

/-! # The content of a text

What is left of the words of a text once the comments are taken out. Blanks between tokens, comments
and carriage returns do not change it, and every line contributes its own part.
-/

namespace LinearProgram

namespace Lexer

/-- The words of a text, without comments and without the end. -/
def content (cs : List Char) : List (TokenKind × String) :=
  (words cs).filter fun w => w.1 ≠ .comment ∧ w.1 ≠ .eof

/-- A line without its comment. -/
def uncommented : List Char → List Char
  | [] => []
  | '#' :: _ => []
  | '/' :: '/' :: _ => []
  | c :: cs => c :: uncommented cs

/-- Every line feed with a carriage return in front. -/
def carriageReturns (cs : List Char) : List Char :=
  cs.flatMap fun c => if c = '\n' then ['\r', '\n'] else [c]

/-- Line feeds, semicolons and blanks continue no token but a comment. -/
def IsSeparator (c : Char) : Prop := c = '\n' ∨ c = ';' ∨ isBlank c = true

theorem IsSeparator.continues {c : Char} (h : IsSeparator c) :
    c.isDigit = false ∧ Alphabet.continuesName c = false ∧
      c ∉ ['.', '/', '#', '=', '<', '>'] := by
  rw [IsSeparator, isBlank_iff] at h
  rcases h with rfl | rfl | rfl | rfl | rfl <;> decide +kernel

/-- To induct on a text is to take off blanks and tokens. -/
@[elab_as_elim]
theorem textInduction {P : List Char → Prop} (nil : P [])
    (blank : ∀ c cs, isBlank c = true → P cs → P (c :: cs))
    (token : ∀ c cs, isBlank c = false → P (cs.drop (lexeme c cs).2) → P (c :: cs))
    (cs : List Char) : P cs := by
  induction hn : cs.length using Nat.strong_induction_on generalizing cs with
  | _ n ih =>
    cases cs with
    | nil => exact nil
    | cons c cs =>
      subst hn
      cases hc : isBlank c with
      | true => exact blank c cs hc (ih _ (Nat.lt_succ_self _) cs rfl)
      | false =>
        refine token c cs hc (ih _ ?_ _ rfl)
        rw [List.length_drop, List.length_cons]
        omega

section Lexemes

variable {c : Char} {cs rest : List Char}

theorem run_append_of_head? {p : Char → Bool} (h : ∀ d ∈ rest.head?, p d = false) :
    run p (cs ++ rest) = run p cs := by
  have hrest : rest.takeWhile p = [] := by
    cases rest with
    | nil => rfl
    | cons d rest => exact List.takeWhile_cons_of_neg (by simp [h d rfl])
  unfold run
  rw [List.takeWhile_append]
  split
  · next hall => rw [hrest, List.append_nil, hall]
  · rfl

theorem decimalPart_append (h : ∀ d ∈ rest.head?, IsSeparator d) :
    decimalPart (cs ++ rest) = decimalPart cs := by
  cases cs with
  | nil =>
    cases rest with
    | nil => rfl
    | cons d rest =>
      have hd : d ≠ '.' := fun hpoint => (h d rfl).continues.2.2 (by simp [hpoint])
      unfold decimalPart
      simp [hd]
  | cons d ds =>
    have hrun : run Char.isDigit (ds ++ rest) = run Char.isDigit ds :=
      run_append_of_head? fun d hd => (h d hd).continues.1
    by_cases hd : d = '.'
    · subst hd
      simp only [List.cons_append, decimalPart, hrun]
    · unfold decimalPart
      simp [hd]

/-- What is taken off a text does not go beyond a separator, except that only a line feed ends a
comment. -/
def Stops (take : List Char → TokenKind × ℕ) : Prop :=
  ∀ cs rest, (∀ d ∈ rest.head?, IsSeparator d ∧ (d ≠ '\n' → (take cs).1 ≠ .comment)) →
    take (cs ++ rest) = take cs

theorem stops_comment : Stops comment := by
  intro cs rest h
  have hrun : run (· != '\n') (cs ++ rest) = run (· != '\n') cs := by
    apply run_append_of_head?
    intro d hd
    by_contra hd'
    exact (h d hd).2 (by simpa using hd') rfl
  rw [comment, comment, hrun]

theorem stops_slash : Stops fun cs => if cs.head? = some '/' then comment cs else (.slash, 0) := by
  intro cs rest h
  cases cs with
  | nil =>
    have hslash : rest.head? ≠ some '/' := fun hd =>
      (h '/' hd).1.continues.2.2 (by simp)
    simp [hslash]
  | cons d ds =>
    by_cases hd : d = '/'
    · subst hd
      exact stops_comment _ _ h
    · simp [hd]

theorem stops_relation (kind : TokenKind) : Stops (relation kind) := by
  intro cs rest h
  cases cs with
  | nil =>
    have hequals : rest.head? ≠ some '=' := fun hd =>
      (h '=' hd).1.continues.2.2 (by simp)
    simp [relation, hequals]
  | cons d ds => rfl

theorem stops_equality : Stops equality := by
  intro cs rest h
  cases cs with
  | nil =>
    cases rest with
    | nil => rfl
    | cons d rest =>
      have hd := (h d rfl).1.continues.2.2
      simp only [List.mem_cons, not_or] at hd
      unfold equality
      simp [hd]
  | cons d ds => rfl

theorem stops_lexeme (c : Char) : Stops (lexeme c) := by
  have hdigit : ∀ {rest : List Char}, (∀ d ∈ rest.head?, IsSeparator d) →
      ∀ cs, run Char.isDigit (cs ++ rest) = run Char.isDigit cs := fun h _ =>
    run_append_of_head? fun d hd => (h d hd).continues.1
  unfold lexeme
  split
  case h_2 => exact stops_comment
  case h_3 => exact stops_slash
  case h_15 => exact stops_relation .le
  case h_16 => exact stops_relation .ge
  case h_17 => exact stops_equality
  case h_18 =>
    intro cs rest h
    simp only [hdigit fun d hd => (h d hd).1]
  case h_19 =>
    intro cs rest h
    have hseparator : ∀ d ∈ rest.head?, IsSeparator d := fun d hd => (h d hd).1
    split_ifs
    · have hle := run_le_length Char.isDigit cs
      simp only [hdigit hseparator, List.drop_append_of_le_length hle,
        decimalPart_append hseparator]
    · have hrun : run Alphabet.continuesName (cs ++ rest) = run Alphabet.continuesName cs :=
        run_append_of_head? fun d hd => (hseparator d hd).continues.2.1
      simp only [hrun, List.take_append_of_le_length (run_le_length Alphabet.continuesName cs)]
    · rfl
  all_goals exact fun _ _ _ => rfl

/-- The marks with which a comment begins. -/
theorem mark_of_comment (h : (lexeme c cs).1 = .comment) :
    c = '#' ∨ c = '/' ∧ cs.head? = some '/' := by
  unfold lexeme at h
  split at h
  case h_2 => exact .inl rfl
  case h_3 =>
    split at h
    · next hslash => exact .inr ⟨rfl, hslash⟩
    · cases h
  case h_17 =>
    have hmem := equality_mem cs
    rw [h] at hmem
    exact absurd hmem (by decide)
  case h_18 => split at h <;> cases h
  case h_19 =>
    split at h
    · cases h
    · split at h
      · have hmem := wordKind_mem (c :: cs.take (run Alphabet.continuesName cs))
        have hkind : wordKind (c :: cs.take (run Alphabet.continuesName cs)) = .comment := h
        rw [hkind] at hmem
        exact absurd hmem (by decide)
      · cases h
  all_goals cases h

/-- A comment takes everything up to the next line feed. -/
theorem lexeme_of_comment (h : (lexeme c cs).1 = .comment) (rest : List Char) :
    lexeme c (cs ++ rest) = comment (cs ++ rest) := by
  obtain rfl | ⟨rfl, hslash⟩ := mark_of_comment h
  · rfl
  · apply if_pos
    rw [List.head?_append, hslash]
    rfl

end Lexemes

section Content

variable {c : Char} {cs rest blanks : List Char} {kind : TokenKind} {n : ℕ}

theorem content_nil : content [] = [] := by
  rw [content, words_nil]
  rfl

theorem content_blank (h : isBlank c = true) : content (c :: cs) = content cs := by
  rw [content, words_blank h]
  rfl

theorem content_blanks (h : ∀ c ∈ blanks, isBlank c = true) :
    content (blanks ++ cs) = content cs := by
  induction blanks with
  | nil => rfl
  | cons c blanks ih =>
    obtain ⟨hc, hblanks⟩ := List.forall_mem_cons.mp h
    rw [List.cons_append, content_blank hc, ih hblanks]

/-- The content of a text is that of its first token, if it is no comment, and of the rest. -/
theorem content_cons (hblank : isBlank c = false) (h : lexeme c cs = (kind, n)) :
    content (c :: cs) = (if kind = .comment then [] else [(kind, String.ofList (c :: cs.take n))]) ++
      content (cs.drop n) := by
  have hne : kind ≠ .eof := by
    obtain ⟨-, -, hkind⟩ | ⟨-, hkind⟩ | ⟨-, hkind⟩ := lexeme_cases c cs
    · rw [h] at hkind
      simp [(Prod.mk.inj hkind).1]
    · rw [h] at hkind
      simp [(Prod.mk.inj hkind).1]
    · rwa [h] at hkind
  rw [content, words_cons hblank h, content]
  by_cases hkind : kind = .comment <;> simp [hkind, hne]

theorem content_newline : content ('\n' :: cs) = (.newline, "\n") :: content cs :=
  content_cons rfl rfl

/-- A comment has no content. -/
theorem content_comment (hblank : isBlank c = false) (h : lexeme c cs = comment cs) :
    content (c :: cs) = content (cs.dropWhile (· != '\n')) := by
  rw [content_cons hblank h, if_pos rfl, drop_run]
  rfl

/-- Every line has a content of its own. -/
theorem content_append (h : ∀ d ∈ rest.head?, d = '\n') :
    content (cs ++ rest) = content cs ++ content rest := by
  induction cs using textInduction with
  | nil =>
    rw [content_nil]
    rfl
  | blank c cs hblank ih => rw [List.cons_append, content_blank hblank, content_blank hblank, ih]
  | token c cs hblank ih =>
    obtain ⟨kind, n, hcut⟩ : ∃ kind n, lexeme c cs = (kind, n) := ⟨_, _, rfl⟩
    have hlexeme : lexeme c (cs ++ rest) = (kind, n) := by
      rw [← hcut]
      apply stops_lexeme c
      intro d hd
      obtain rfl := h d hd
      exact ⟨.inl rfl, fun hne => absurd rfl hne⟩
    have hle := (isLocal_lexeme c).le_length cs
    rw [hcut] at hle ih
    rw [List.cons_append, content_cons hblank hlexeme, content_cons hblank hcut,
      List.take_append_of_le_length hle, List.drop_append_of_le_length hle, ih, List.append_assoc]

theorem content_line (cs rest : List Char) :
    content (cs ++ '\n' :: rest) = content cs ++ (.newline, "\n") :: content rest := by
  have hhead : ∀ d ∈ ('\n' :: rest).head?, d = '\n' := by
    rintro d ⟨⟩
    rfl
  rw [content_append hhead, content_newline]

/-- No token stands across the cut behind the first characters. -/
def IsCut (position : ℕ) (cs rest : List Char) : Prop :=
  ∀ t ∈ (Cursor.mk position (cs ++ rest)).tokens,
    position + byteLength cs ≤ t.span.start ∨ t.span.stop ≤ position + byteLength cs

theorem tokens_blank (h : isBlank c = true) (position : ℕ) :
    (Cursor.mk position (c :: cs)).tokens = (Cursor.mk (position + c.utf8Size) cs).tokens := by
  have hskip : (Cursor.mk position (c :: cs)).skipBlanks =
      (Cursor.mk (position + c.utf8Size) cs).skipBlanks := by
    simp [Cursor.skipBlanks, h, byteLength, Nat.add_assoc]
  have hnext : (Cursor.mk position (c :: cs)).next? =
      (Cursor.mk (position + c.utf8Size) cs).next? := by
    rw [Cursor.next?, Cursor.next?, hskip]
  cases hcase : (Cursor.mk (position + c.utf8Size) cs).next? with
  | none =>
    rw [Cursor.tokens_of_none hcase, Cursor.tokens_of_none (hnext.trans hcase), Cursor.eof,
      Cursor.eof, hskip]
  | some next =>
    rw [(Cursor.next?_eq_some_iff.mp hcase).tokens_eq,
      (Cursor.next?_eq_some_iff.mp (hnext.trans hcase)).tokens_eq]

theorem IsCut.of_blank {position : ℕ} (hblank : isBlank c = true)
    (h : IsCut position (c :: cs) rest) : IsCut (position + c.utf8Size) cs rest := by
  intro t ht
  rw [← tokens_blank hblank] at ht
  have hcut := h t ht
  rwa [byteLength, ← Nat.add_assoc] at hcut

/-- A longer piece has more bytes. -/
theorem length_le_of_byteLength_le {n : ℕ} (hn : n ≤ (cs ++ rest).length)
    (h : byteLength ((cs ++ rest).take n) ≤ byteLength cs) : n ≤ cs.length := by
  by_contra hlt
  have htake : (cs ++ rest).take n = cs ++ rest.take (n - cs.length) := by
    rw [List.take_append, List.take_of_length_le (by omega)]
  rw [htake, byteLength_append] at h
  rw [List.length_append] at hn
  cases rest with
  | nil => simp at hn; omega
  | cons d rest =>
    obtain ⟨m, hm⟩ : ∃ m, n - cs.length = m + 1 := ⟨n - cs.length - 1, by omega⟩
    rw [hm, List.take_succ_cons, byteLength] at h
    have hpos := d.utf8Size_pos
    omega

/-- The token that begins a text ends before a cut, and what is behind it is cut as before. -/
theorem IsCut.of_token {position : ℕ} (hblank : isBlank c = false)
    (h : IsCut position (c :: cs) rest) : (lexeme c (cs ++ rest)).2 ≤ cs.length ∧
      IsCut (position + byteLength (c :: cs.take (lexeme c cs).2)) (cs.drop (lexeme c cs).2)
        rest := by
  obtain ⟨kind, n, hlexeme⟩ : ∃ kind n, lexeme c (cs ++ rest) = (kind, n) := ⟨_, _, rfl⟩
  have hn : n ≤ (cs ++ rest).length := by
    have hle := (isLocal_lexeme c).le_length (cs ++ rest)
    rwa [hlexeme] at hle
  have hlength : ((cs ++ rest).take n).length = n := List.length_take_of_le hn
  have hstep := @Cursor.Step.mk position [] ((cs ++ rest).take n) ((cs ++ rest).drop n) c kind
    (by simp) hblank (by rw [List.take_append_drop, hlexeme, hlength])
  rw [List.nil_append, List.cons_append, List.take_append_drop] at hstep
  have htokens : (Cursor.mk position (c :: cs ++ rest)).tokens = _ := hstep.tokens_eq
  unfold IsCut at h
  rw [htokens, List.forall_mem_cons] at h
  obtain ⟨hfirst, hrest⟩ := h
  have hpos := c.utf8Size_pos
  have hle : n ≤ cs.length := by
    apply length_le_of_byteLength_le hn
    simp only [byteLength] at hfirst
    omega
  have hlexeme' : lexeme c cs = (kind, n) := by
    have hlocal : lexeme c (cs ++ rest) = lexeme c cs :=
      (isLocal_lexeme c).append (by rwa [hlexeme])
    rw [← hlocal, hlexeme]
  have hsplit : byteLength cs = byteLength (cs.take n) + byteLength (cs.drop n) := by
    rw [← byteLength_append, List.take_append_drop]
  rw [hlexeme, hlexeme']
  refine ⟨hle, fun t ht => ?_⟩
  rw [List.take_append_of_le_length hle, List.drop_append_of_le_length hle] at hrest
  have hcut := hrest t ht
  simp only [byteLength] at hcut ⊢
  omega

/-- Blanks may be put in at a cut. -/
theorem content_insert (hblanks : ∀ c ∈ blanks, isBlank c = true) {position : ℕ}
    (h : IsCut position cs rest) : content (cs ++ (blanks ++ rest)) = content (cs ++ rest) := by
  induction cs using textInduction generalizing position with
  | nil => exact content_blanks hblanks
  | blank c cs hblank ih =>
    rw [List.cons_append, List.cons_append, content_blank hblank, content_blank hblank,
      ih (h.of_blank hblank)]
  | token c cs hblank ih =>
    obtain ⟨kind, n, hcut⟩ : ∃ kind n, lexeme c cs = (kind, n) := ⟨_, _, rfl⟩
    obtain ⟨hle, hrest⟩ := h.of_token hblank
    have hlexeme : lexeme c (cs ++ rest) = (kind, n) :=
      ((isLocal_lexeme c).append hle).trans hcut
    have hn : n ≤ cs.length := by rwa [hlexeme] at hle
    rw [hcut] at ih hrest
    by_cases hkind : kind = .comment
    · have hcomment : (lexeme c cs).1 = .comment := by rw [hcut, hkind]
      rw [List.cons_append, List.cons_append,
        content_comment hblank (lexeme_of_comment hcomment _),
        content_comment hblank (lexeme_of_comment hcomment _)]
      -- the comment ends before the cut, or it takes the blanks as well
      by_cases hall : ∀ d ∈ cs, (d != '\n') = true
      · have hline : ∀ d ∈ blanks, (d != '\n') = true := by
          intro d hd
          rcases isBlank_iff.mp (hblanks d hd) with rfl | rfl | rfl <;> rfl
        rw [List.dropWhile_append_of_pos hall, List.dropWhile_append_of_pos hall,
          List.dropWhile_append_of_pos hline]
      · have hne : (cs.dropWhile (· != '\n')).isEmpty = false := by
          simpa using hall
        have hdrop : cs.drop n = cs.dropWhile (· != '\n') := by
          have heq := lexeme_of_comment hcomment []
          rw [List.append_nil, hcut] at heq
          rw [(Prod.mk.inj heq).2, drop_run]
        have hwhile : ∀ more, (cs ++ more).dropWhile (· != '\n') = cs.drop n ++ more := fun more => by
          simp [List.dropWhile_append, hne, hdrop]
        rw [hwhile, hwhile, ih hrest]
    · have hinserted : lexeme c (cs ++ (blanks ++ rest)) = (kind, n) := by
        cases blanks with
        | nil => exact hlexeme
        | cons b blanks =>
          rw [← hcut]
          apply stops_lexeme c
          rintro d ⟨⟩
          rw [hcut]
          exact ⟨.inr (.inr (hblanks b (.head blanks))), fun _ => hkind⟩
      rw [List.cons_append, List.cons_append, content_cons hblank hinserted,
        content_cons hblank hlexeme, List.take_append_of_le_length hn,
        List.take_append_of_le_length hn, List.drop_append_of_le_length hn,
        List.drop_append_of_le_length hn, ih hrest]

/-- Blanks at the end of a text do not matter. -/
theorem content_append_blanks (hblanks : ∀ c ∈ blanks, isBlank c = true) :
    content (cs ++ blanks) = content cs := by
  have hcut : IsCut 0 cs [] := by
    intro t ht
    rw [List.append_nil, ← String.toList_ofList (l := cs)] at ht
    have hle := (isWithin_of_mem_tokenize ht).stop_le
    rw [utf8ByteSize_ofList] at hle
    exact .inr (hle.trans (Nat.le_add_left _ _))
  have hinsert := content_insert hblanks hcut
  rwa [List.append_nil, List.append_nil] at hinsert

/-- A carriage return belongs to the layout. -/
theorem content_carriageReturns (cs : List Char) : content (carriageReturns cs) = content cs := by
  -- the characters in front of the cut hold no line feed, those behind it have got their returns
  have hline : ∀ cs line, content (line ++ carriageReturns cs) = content (line ++ cs) := by
    intro cs
    induction cs with
    | nil => exact fun _ => rfl
    | cons c cs ih =>
      intro line
      by_cases hc : c = '\n'
      · subst hc
        have hreturns : line ++ carriageReturns ('\n' :: cs) =
            (line ++ ['\r']) ++ '\n' :: carriageReturns cs := by
          simp [carriageReturns]
        have hblank : content (line ++ ['\r']) = content line :=
          content_append_blanks (List.forall_mem_singleton.mpr rfl)
        have hcs := ih []
        rw [List.nil_append, List.nil_append] at hcs
        rw [hreturns, content_line, content_line, hblank, hcs]
      · have hreturns : carriageReturns (c :: cs) = [c] ++ carriageReturns cs := by
          simp [carriageReturns, hc]
        have hcs := ih (line ++ [c])
        rw [List.append_assoc, List.append_assoc] at hcs
        rw [hreturns, hcs]
        rfl
  exact hline cs []

section Uncommented

theorem uncommented_append {taken : List Char} (h : ∀ d ∈ taken, d ≠ '#' ∧ d ≠ '/') :
    uncommented (taken ++ rest) = taken ++ uncommented rest := by
  induction taken with
  | nil => rfl
  | cons d taken ih =>
    obtain ⟨⟨hhash, hslash⟩, htaken⟩ := List.forall_mem_cons.mp h
    have hcons : uncommented (d :: (taken ++ rest)) = d :: uncommented (taken ++ rest) :=
      uncommented.eq_4 _ _ hhash fun _ heq => absurd heq hslash
    rw [List.cons_append, hcons, ih htaken, List.cons_append]

theorem take_drop_uncommented (hn : n ≤ cs.length) (h : ∀ d ∈ cs.take n, d ≠ '#' ∧ d ≠ '/') :
    (uncommented cs).take n = cs.take n ∧ (uncommented cs).drop n = uncommented (cs.drop n) := by
  have hsplit : uncommented cs = cs.take n ++ uncommented (cs.drop n) := by
    rw [← uncommented_append h, List.take_append_drop]
  have hlength : (cs.take n).length = n := List.length_take_of_le hn
  rw [hsplit]
  exact ⟨List.take_left' hlength, List.drop_left' hlength⟩

/-- Where a line goes on without its comment, it goes on as before. -/
theorem head?_uncommented_iff {d : Char} (hhash : d ≠ '#') (hslash : d ≠ '/') :
    (uncommented cs).head? = some d ↔ cs.head? = some d := by
  fun_cases uncommented cs <;> simp [hhash.symm, hslash.symm]

theorem run_uncommented {p : Char → Bool} (hhash : p '#' = false) (hslash : p '/' = false) :
    run p (uncommented cs) = run p cs := by
  unfold run
  fun_induction uncommented cs with
  | case1 => rfl
  | case2 => simp [hhash]
  | case3 => simp [hslash]
  | case4 c cs _ _ ih => by_cases hc : p c = true <;> simp [hc, ih]

theorem ne_of_mem_takeWhile {p : Char → Bool} (hhash : p '#' = false) (hslash : p '/' = false) :
    ∀ d ∈ cs.take (run p cs), d ≠ '#' ∧ d ≠ '/' := by
  intro d hd
  rw [take_run] at hd
  have hpass := List.mem_takeWhile_imp hd
  constructor
  · rintro rfl
    rw [hhash] at hpass
    cases hpass
  · rintro rfl
    rw [hslash] at hpass
    cases hpass

theorem decimalPart_uncommented (cs : List Char) :
    decimalPart (uncommented cs) = decimalPart cs := by
  fun_cases uncommented cs with
  | case1 => rfl
  | case2 => rfl
  | case3 => rfl
  | case4 c cs hhash hslash =>
    by_cases hc : c = '.'
    · subst hc
      simp only [decimalPart, run_uncommented (p := Char.isDigit) rfl rfl]
    · unfold decimalPart
      simp [hc]

/-- A token that is no comment is the same without the comment behind it, and reaches no mark of a
comment. -/
def Survives (take : List Char → TokenKind × ℕ) : Prop :=
  ∀ cs, (take cs).1 ≠ .comment →
    take (uncommented cs) = take cs ∧ ∀ d ∈ cs.take (take cs).2, d ≠ '#' ∧ d ≠ '/'

theorem survives_single (kind : TokenKind) : Survives fun _ => (kind, 0) :=
  fun _ _ => ⟨rfl, by simp⟩

theorem survives_comment : Survives comment := fun _ h => absurd rfl h

theorem survives_slash :
    Survives fun cs => if cs.head? = some '/' then comment cs else (.slash, 0) := by
  intro cs h
  by_cases hslash : cs.head? = some '/'
  · simp [hslash, comment] at h
  · have hhead : (uncommented cs).head? ≠ some '/' := by
      revert hslash
      fun_cases uncommented cs <;> simp
    simp only [hslash, hhead, if_false]
    exact ⟨trivial, by simp⟩

theorem survives_relation (kind : TokenKind) : Survives (relation kind) := by
  intro cs _
  have hhead : (uncommented cs).head? = some '=' ↔ cs.head? = some '=' :=
    head?_uncommented_iff (by decide) (by decide)
  simp only [relation, hhead, true_and]
  cases cs with
  | nil => simp
  | cons d cs =>
    by_cases hd : d = '='
    · simp [hd]
    · simp [hd]

theorem survives_equality : Survives equality := by
  intro cs _
  have hhead : equality (uncommented cs) = equality cs := by
    unfold equality
    fun_cases uncommented cs <;> rfl
  refine ⟨hhead, ?_⟩
  cases cs with
  | nil => simp
  | cons d cs =>
    unfold equality
    simp only [List.head?_cons]
    split <;> simp_all

theorem survives_numeral : Survives fun cs =>
    (.number, run Char.isDigit cs + decimalPart (cs.drop (run Char.isDigit cs))) := by
  intro cs _
  have hwhole : ∀ d ∈ cs.take (run Char.isDigit cs), d ≠ '#' ∧ d ≠ '/' :=
    ne_of_mem_takeWhile rfl rfl
  have hdrop := (take_drop_uncommented (run_le_length _ cs) hwhole).2
  simp only [run_uncommented (p := Char.isDigit) rfl rfl, hdrop, decimalPart_uncommented, true_and]
  rw [take_run_add, ← take_run, List.forall_mem_append]
  refine ⟨hwhole, ?_⟩
  obtain hnone | ⟨fraction, hpoint, hfraction, -⟩ :=
    take_decimalPart (cs.drop (run Char.isDigit cs))
  · rw [hnone]
    simp
  · rw [hpoint, List.forall_mem_cons]
    refine ⟨by decide, fun d hd => ⟨?_, ?_⟩⟩ <;>
    · rintro rfl
      exact absurd (hfraction _ hd) (by decide)

theorem survives_name (c : Char) : Survives fun cs =>
    (wordKind (c :: cs.take (run Alphabet.continuesName cs)), run Alphabet.continuesName cs) := by
  have hhash : Alphabet.continuesName '#' = false := by decide +kernel
  have hslash : Alphabet.continuesName '/' = false := by decide +kernel
  intro cs _
  have hname : ∀ d ∈ cs.take (run Alphabet.continuesName cs), d ≠ '#' ∧ d ≠ '/' :=
    ne_of_mem_takeWhile hhash hslash
  have htake := (take_drop_uncommented (run_le_length _ cs) hname).1
  simp only [run_uncommented hhash hslash, htake, true_and]
  exact hname

theorem survives_lexeme (c : Char) : Survives (lexeme c) := by
  unfold lexeme
  split
  case h_2 => exact survives_comment
  case h_3 => exact survives_slash
  case h_15 => exact survives_relation .le
  case h_16 => exact survives_relation .ge
  case h_17 => exact survives_equality
  case h_18 =>
    intro cs _
    simp only [run_uncommented (p := Char.isDigit) rfl rfl, true_and]
    split
    · simp
    · exact ne_of_mem_takeWhile rfl rfl
  case h_19 =>
    split_ifs
    · exact survives_numeral
    · exact survives_name c
    · exact survives_single .error
  all_goals exact survives_single _

/-- A comment adds nothing to the content of its line. -/
theorem content_uncommented (h : '\n' ∉ cs) : content (uncommented cs) = content cs := by
  induction cs using textInduction with
  | nil => rfl
  | blank c cs hblank ih =>
    have hc : ∀ d ∈ [c], d ≠ '#' ∧ d ≠ '/' := by
      rw [List.forall_mem_singleton]
      rcases isBlank_iff.mp hblank with rfl | rfl | rfl <;> decide
    have hcons : uncommented (c :: cs) = c :: uncommented cs := uncommented_append hc
    rw [hcons, content_blank hblank, content_blank hblank,
      ih fun hmem => h (List.mem_cons_of_mem c hmem)]
  | token c cs hblank ih =>
    obtain ⟨kind, n, hcut⟩ : ∃ kind n, lexeme c cs = (kind, n) := ⟨_, _, rfl⟩
    by_cases hkind : kind = .comment
    · have hcomment : (lexeme c cs).1 = .comment := by rw [hcut, hkind]
      have hnone : uncommented (c :: cs) = [] := by
        obtain rfl | ⟨rfl, hslash⟩ := mark_of_comment hcomment
        · rfl
        · obtain ⟨rest, rfl⟩ := List.head?_eq_some_iff.mp hslash
          rfl
      have hline : ∀ d ∈ cs, (d != '\n') = true := by
        intro d hd
        have hne : d ≠ '\n' := by
          rintro rfl
          exact h (List.mem_cons_of_mem c hd)
        simpa using hne
      have hlexeme := lexeme_of_comment hcomment []
      rw [List.append_nil] at hlexeme
      rw [hnone, content_comment hblank hlexeme, List.dropWhile_eq_nil_iff.mpr hline]
    · have hcomment : (lexeme c cs).1 ≠ .comment := by rwa [hcut]
      have hcons : uncommented (c :: cs) = c :: uncommented cs := by
        apply uncommented.eq_4
        · rintro rfl
          exact hcomment rfl
        · rintro rest rfl rfl
          exact hcomment rfl
      obtain ⟨hsame, hplain⟩ := survives_lexeme c cs hcomment
      have hle := (isLocal_lexeme c).le_length cs
      rw [hcut] at hsame hplain hle ih
      obtain ⟨htake, hdrop⟩ := take_drop_uncommented hle hplain
      rw [hcons, content_cons hblank hsame, content_cons hblank hcut, htake, hdrop,
        ih fun hmem => h (List.mem_cons_of_mem c (List.mem_of_mem_drop hmem))]

end Uncommented

end Content

end Lexer

end LinearProgram

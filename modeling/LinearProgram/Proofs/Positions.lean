import LinearProgram.Proofs.Relocation
import LinearProgram.Proofs.Tokens
import Mathlib.Data.String.Basic

/-! # Where tokens stand

Every token stands for a piece of the source. Tokens that follow each other are the tokens of a
piece of the source taken by itself: neither what stands before it nor what stands behind it
matters.
-/

namespace LinearProgram

namespace Lexer

theorem isBlank_iff {c : Char} : isBlank c = true ↔ c = ' ' ∨ c = '\t' ∨ c = '\r' := by
  simp [isBlank, or_assoc]

/-- What is taken off the front of a text does not depend on what stands behind it. -/
structure IsLocal (take : List Char → TokenKind × ℕ) : Prop where
  le_length : ∀ cs, (take cs).2 ≤ cs.length
  append : ∀ {cs rest}, (take (cs ++ rest)).2 ≤ cs.length → take (cs ++ rest) = take cs

section Counts

variable {cs rest : List Char}

theorem run_le_length (p : Char → Bool) (cs : List Char) : run p cs ≤ cs.length :=
  (List.takeWhile_sublist p).length_le

theorem run_append_of_le {p : Char → Bool} (h : run p (cs ++ rest) ≤ cs.length) :
    run p (cs ++ rest) = run p cs := by
  unfold run at h ⊢
  rw [List.takeWhile_append] at h ⊢
  split
  · next hall =>
    rw [if_pos hall, List.length_append] at h
    rw [List.length_append]
    omega
  · rfl

theorem decimalPart_le_length (cs : List Char) : decimalPart cs ≤ cs.length := by
  unfold decimalPart
  split
  · next cs =>
    have hle := run_le_length Char.isDigit cs
    split <;> simp only [List.length_cons] <;> omega
  · omega

theorem decimalPart_append_of_le (h : decimalPart (cs ++ rest) ≤ cs.length) :
    decimalPart (cs ++ rest) = decimalPart cs := by
  cases cs with
  | nil => exact Nat.eq_zero_of_le_zero h
  | cons d ds =>
    by_cases hd : d = '.'
    · subst hd
      have hrun : run Char.isDigit (ds ++ rest) = run Char.isDigit ds := by
        apply run_append_of_le
        simp only [List.cons_append, decimalPart, List.length_cons] at h
        split at h <;> omega
      simp only [List.cons_append, decimalPart, hrun]
    · unfold decimalPart
      simp [hd]

end Counts

theorem isLocal_single (kind : TokenKind) : IsLocal fun _ => (kind, 0) :=
  ⟨fun _ => Nat.zero_le _, fun _ => rfl⟩

theorem isLocal_comment : IsLocal comment := by
  constructor
  · exact run_le_length _
  · intro cs rest h
    simp only [comment, run_append_of_le h]

theorem isLocal_slash :
    IsLocal fun cs => if cs.head? = some '/' then comment cs else (.slash, 0) := by
  constructor
  · intro cs
    split
    · exact isLocal_comment.le_length cs
    · exact Nat.zero_le _
  · intro cs rest h
    cases cs with
    | nil =>
      dsimp only [List.nil_append] at h ⊢
      split at h
      · next hslash =>
        have hpos : (comment rest).2 ≠ 0 := by
          cases rest with
          | nil => cases hslash
          | cons d ds =>
            cases hslash
            simp [comment, run]
        exact absurd (Nat.eq_zero_of_le_zero h) hpos
      · next hslash => simp [hslash]
    | cons d ds =>
      have hhead : (d :: ds ++ rest).head? = (d :: ds).head? := rfl
      simp only [hhead] at h ⊢
      by_cases hslash : (d :: ds).head? = some '/'
      · simp only [hslash, if_true] at h ⊢
        exact isLocal_comment.append h
      · simp only [hslash, if_false]

theorem isLocal_relation (kind : TokenKind) : IsLocal (relation kind) := by
  constructor
  · intro cs
    cases cs with
    | nil => simp [relation]
    | cons d ds =>
      simp only [relation]
      split <;> simp
  · intro cs rest h
    cases cs with
    | nil => 
      cases rest with
      | nil => rfl
      | cons d ds => 
        simp only [relation] at h ⊢
        simp_all
    | cons d ds => simp [relation]

theorem isLocal_equality : IsLocal equality := by
  constructor
  · intro cs
    cases cs with
    | nil => simp [equality]
    | cons d ds =>
      simp only [equality]
      split <;> simp
  · intro cs rest h
    cases cs with
    | nil =>
      simp only [equality, List.nil_append, List.length_nil] at h ⊢
      split at h <;> simp_all
    | cons d ds => simp [equality]

theorem isLocal_fraction : IsLocal fun cs =>
    if run Char.isDigit cs = 0 then (.error, 0) else (.number, run Char.isDigit cs) := by
  constructor
  · intro cs
    have hle := run_le_length Char.isDigit cs
    split
    · exact Nat.zero_le _
    · exact hle
  · intro cs rest h
    have hrun : run Char.isDigit (cs ++ rest) = run Char.isDigit cs := by
      apply run_append_of_le
      split at h
      · omega
      · exact h
    simp only [hrun]

theorem isLocal_numeral : IsLocal fun cs =>
    (.number, run Char.isDigit cs + decimalPart (cs.drop (run Char.isDigit cs))) := by
  constructor
  · intro cs
    have hle := run_le_length Char.isDigit cs
    have hpart := decimalPart_le_length (cs.drop (run Char.isDigit cs))
    rw [List.length_drop] at hpart
    dsimp only
    omega
  · intro cs rest h
    dsimp only at h ⊢
    have hrun : run Char.isDigit (cs ++ rest) = run Char.isDigit cs :=
      run_append_of_le (by omega)
    rw [hrun] at h ⊢
    have hle := run_le_length Char.isDigit cs
    rw [List.drop_append_of_le_length hle] at h ⊢
    rw [decimalPart_append_of_le (by rw [List.length_drop]; omega)]

theorem isLocal_name (c : Char) : IsLocal fun cs =>
    (wordKind (c :: cs.take (run Alphabet.continuesName cs)), run Alphabet.continuesName cs) := by
  constructor
  · exact run_le_length _
  · intro cs rest h
    dsimp only at h ⊢
    rw [run_append_of_le h, List.take_append_of_le_length (run_le_length _ cs)]

theorem isLocal_lexeme (c : Char) : IsLocal (lexeme c) := by
  unfold lexeme
  split
  case h_2 => exact isLocal_comment
  case h_3 => exact isLocal_slash
  case h_15 => exact isLocal_relation .le
  case h_16 => exact isLocal_relation .ge
  case h_17 => exact isLocal_equality
  case h_18 => exact isLocal_fraction
  case h_19 =>
    split_ifs
    · exact isLocal_numeral
    · exact isLocal_name c
    · exact isLocal_single .error
  all_goals exact isLocal_single _

theorem byteLength_append (cs ds : List Char) :
    byteLength (cs ++ ds) = byteLength cs + byteLength ds := by
  induction cs with
  | nil => simp [byteLength]
  | cons c cs ih =>
    simp only [List.cons_append, byteLength, ih]
    omega

theorem byteLength_eq (cs : List Char) : byteLength cs = String.utf8Len cs := by
  induction cs with
  | nil => rfl
  | cons c cs ih => rw [byteLength, ih, String.utf8Len_cons, Nat.add_comm]

theorem utf8ByteSize_ofList (cs : List Char) : (String.ofList cs).utf8ByteSize = byteLength cs := by
  rw [byteLength_eq, String.utf8ByteSize_ofList]

end Lexer

open Lexer

namespace Span

/-- The span lies in the source, and both its ends are between characters. -/
structure IsWithin (s : Span) (source : String) : Prop where
  start_le_stop : s.start ≤ s.stop
  stop_le : s.stop ≤ source.utf8ByteSize
  isValid_start : String.Pos.Raw.IsValid source ⟨s.start⟩
  isValid_stop : String.Pos.Raw.IsValid source ⟨s.stop⟩

/-- The piece of the source that the span covers. -/
def cut (s : Span) (source : String) : String :=
  String.Pos.Raw.extract source ⟨s.start⟩ ⟨s.stop⟩

variable {source : String} {before piece after : List Char}

theorem isValid_byteLength (h : source.toList = before ++ after) :
    String.Pos.Raw.IsValid source ⟨byteLength before⟩ := by
  rw [String.Pos.Raw.isValid_iff_exists_append]
  refine ⟨String.ofList before, String.ofList after, ?_, ?_⟩
  · rw [← String.ofList_append, ← h, String.ofList_toList]
  · rw [String.rawEndPos, utf8ByteSize_ofList]

/-- The span of a piece, and the piece of a span. -/
theorem isWithin_of_append (h : source.toList = before ++ (piece ++ after)) :
    IsWithin ⟨byteLength before, byteLength before + byteLength piece⟩ source ∧
      cut ⟨byteLength before, byteLength before + byteLength piece⟩ source =
        String.ofList piece := by
  have h' : source.toList = (before ++ piece) ++ after := by rw [h, List.append_assoc]
  have hsource : source = String.ofList (before ++ piece ++ after) := by
    rw [← h', String.ofList_toList]
  constructor
  · refine ⟨Nat.le_add_right _ _, ?_, isValid_byteLength h, ?_⟩
    · rw [hsource, utf8ByteSize_ofList, byteLength_append, byteLength_append]
      exact Nat.le_add_right _ _
    · rw [← byteLength_append]
      exact isValid_byteLength h'
  · rw [cut, hsource, byteLength_eq, byteLength_eq]
    exact String.extract_of_valid before piece after

end Span

namespace Cursor

/-- The next token: blanks may stand in front of it, and it takes as many characters as the first
one asks for. -/
inductive Step : Cursor → Token → Cursor → Prop where
  | mk {position : ℕ} {blanks taken rest : List Char} {first : Char} {kind : TokenKind} :
      (∀ c ∈ blanks, isBlank c = true) → isBlank first = false →
      lexeme first (taken ++ rest) = (kind, taken.length) →
      Step ⟨position, blanks ++ (first :: taken ++ rest)⟩
        ⟨kind, ⟨position + byteLength blanks,
          position + byteLength blanks + byteLength (first :: taken)⟩,
          String.ofList (first :: taken)⟩
        ⟨position + byteLength blanks + byteLength (first :: taken), rest⟩

/-- Tokens are cut off one after the other. -/
inductive Reads : Cursor → List Token → Cursor → Prop where
  | nil {c : Cursor} : Reads c [] c
  | cons {c d e : Cursor} {t : Token} {ts : List Token} :
      Step c t d → Reads d ts e → Reads c (t :: ts) e

variable {c d : Cursor} {p q : ℕ} {cs ds rest : List Char} {t : Token} {ts us : List Token}

theorem skipBlanks_append {blanks rest : List Char} {first : Char}
    (hblanks : ∀ c ∈ blanks, isBlank c = true) (hfirst : isBlank first = false) (position : ℕ) :
    (Cursor.mk position (blanks ++ first :: rest)).skipBlanks =
      ⟨position + byteLength blanks, first :: rest⟩ := by
  have htake : (blanks ++ first :: rest).takeWhile isBlank = blanks := by
    rw [List.takeWhile_append_of_pos hblanks, List.takeWhile_cons_of_neg (by simp [hfirst]),
      List.append_nil]
  have hdrop : (blanks ++ first :: rest).dropWhile isBlank = first :: rest := by
    rw [List.dropWhile_append_of_pos hblanks, List.dropWhile_cons_of_neg (by simp [hfirst])]
  rw [skipBlanks, htake, hdrop]

theorem next?_eq_some_iff : c.next? = some (t, d) ↔ Step c t d := by
  constructor
  · intro h
    obtain ⟨position, cs⟩ := c
    have hsplit := List.takeWhile_append_dropWhile (p := isBlank) (l := cs)
    unfold next? at h
    simp only [skipBlanks] at h
    split at h
    · cases h
    · next first rest hrest =>
      cases h
      have hfirst : isBlank first = false := by
        have hhead := List.head?_dropWhile_not isBlank cs
        rw [hrest] at hhead
        simpa using hhead
      have hblanks : ∀ c ∈ cs.takeWhile isBlank, isBlank c = true := fun c =>
        List.mem_takeWhile_imp
      have hle := (isLocal_lexeme first).le_length rest
      have hlexeme : lexeme first
          (rest.take (lexeme first rest).2 ++ rest.drop (lexeme first rest).2) =
            ((lexeme first rest).1, (rest.take (lexeme first rest).2).length) := by
        rw [List.take_append_drop, List.length_take, Nat.min_eq_left hle]
      have hstep := @Step.mk position _ _ _ first _ hblanks hfirst hlexeme
      rw [List.cons_append, List.take_append_drop, ← hrest, hsplit] at hstep
      exact hstep
  · rintro ⟨hblanks, hfirst, hlexeme⟩
    unfold next?
    rw [List.cons_append, skipBlanks_append hblanks hfirst]
    simp only [hlexeme, List.take_left, List.drop_left]

/-- The same cursor further on. -/
def move (n : ℕ) (c : Cursor) : Cursor := ⟨c.position + n, c.rest⟩

theorem next?_move (n : ℕ) (c : Cursor) : (c.move n).next? =
    c.next?.map fun (t, d) => (t.relocate (· + n), d.move n) := by
  unfold next?
  simp only [skipBlanks, move]
  split
  · rfl
  · simp only [Option.map_some, Token.relocate, Span.relocate, Option.some.injEq, Prod.mk.injEq,
      Token.mk.injEq, Span.mk.injEq, Cursor.mk.injEq, true_and, and_true]
    omega

theorem tokens_of_none (h : c.next? = none) : c.tokens = [c.eof] := by
  rw [tokens]
  split
  · rfl
  · next h' => rw [h] at h'; cases h'

theorem Step.tokens_eq (h : Step c t d) : c.tokens = t :: d.tokens := by
  have hnext := next?_eq_some_iff.mpr h
  rw [tokens]
  split
  · next h' => rw [hnext] at h'; cases h'
  · next h' =>
    rw [hnext] at h'
    cases h'
    rfl

theorem tokens_move (n : ℕ) (c : Cursor) :
    (c.move n).tokens = c.tokens.map (Token.relocate (· + n)) := by
  fun_induction tokens c with
  | case1 c hc =>
    have hnone : (c.move n).next? = none := by rw [next?_move, hc]; rfl
    rw [tokens_of_none hnone, List.map_singleton]
    simp only [eof, skipBlanks, move, Token.relocate, Span.relocate]
    congr 3 <;> omega
  | case2 c t d hd _ ih =>
    have hsome : (c.move n).next? = some (t.relocate (· + n), d.move n) := by
      rw [next?_move, hd]
      rfl
    rw [(next?_eq_some_iff.mp hsome).tokens_eq, ih, List.map_cons]

theorem Step.exists_append (h : Step c t d) :
    ∃ piece, c.rest = piece ++ d.rest ∧ d.position = c.position + byteLength piece := by
  obtain @⟨position, blanks, taken, rest, first, kind, -, -, -⟩ := h
  refine ⟨blanks ++ first :: taken, by simp, ?_⟩
  rw [byteLength_append, ← Nat.add_assoc]

/-- What stands behind a token does not matter for it. -/
theorem Step.of_append (h : Step ⟨p, cs ++ rest⟩ t ⟨q, ds ++ rest⟩) : Step ⟨p, cs⟩ t ⟨q, ds⟩ := by
  generalize hcs : cs ++ rest = cs' at h
  generalize hds : ds ++ rest = ds' at h
  obtain @⟨_, blanks, taken, _, first, kind, hblanks, hfirst, hlexeme⟩ := h
  subst hds
  have hsplit : cs ++ rest = blanks ++ (first :: taken ++ ds) ++ rest := by simpa using hcs
  obtain rfl := List.append_cancel_right hsplit
  rw [← List.append_assoc] at hlexeme
  have hle : (lexeme first (taken ++ ds ++ rest)).2 ≤ (taken ++ ds).length := by
    rw [hlexeme, List.length_append]
    exact Nat.le_add_right _ _
  exact .mk hblanks hfirst (((isLocal_lexeme first).append hle).symm.trans hlexeme)

/-- Blanks in front of a token do not matter for it. -/
theorem Step.skipBlanks (h : Step c t d) :
    Step c.skipBlanks t d ∧ t.span.start = c.skipBlanks.position := by
  obtain @⟨position, blanks, taken, rest, first, kind, hblanks, hfirst, hlexeme⟩ := h
  rw [List.cons_append, skipBlanks_append hblanks hfirst]
  exact ⟨@mk (position + byteLength blanks) [] taken rest first kind (List.forall_mem_nil _)
    hfirst hlexeme, rfl⟩

theorem Step.stop_eq (h : Step c t d) : t.span.stop = d.position := by
  cases h
  rfl

theorem Reads.tokens_eq (h : Reads c ts d) : c.tokens = ts ++ d.tokens := by
  induction h with
  | nil => rfl
  | cons hstep _ ih => rw [hstep.tokens_eq, ih, List.cons_append]

theorem Reads.exists_append (h : Reads c ts d) :
    ∃ piece, c.rest = piece ++ d.rest ∧ d.position = c.position + byteLength piece := by
  induction h with
  | nil => exact ⟨[], rfl, rfl⟩
  | cons hstep _ ih =>
    obtain ⟨piece, hrest, hposition⟩ := hstep.exists_append
    obtain ⟨more, hrest', hposition'⟩ := ih
    refine ⟨piece ++ more, by rw [hrest, hrest', List.append_assoc], ?_⟩
    rw [byteLength_append, hposition', hposition, Nat.add_assoc]

theorem Reads.of_append (h : Reads ⟨p, cs ++ rest⟩ ts ⟨q, ds ++ rest⟩) :
    Reads ⟨p, cs⟩ ts ⟨q, ds⟩ := by
  generalize hc : Cursor.mk p (cs ++ rest) = c at h
  generalize hd : Cursor.mk q (ds ++ rest) = d at h
  induction h generalizing p cs with
  | nil =>
    obtain ⟨rfl, hcs⟩ := Cursor.mk.inj (hc.trans hd.symm)
    obtain rfl := List.append_cancel_right hcs
    exact .nil
  | @cons _ e _ t ts hstep hreads ih =>
    subst hc hd
    obtain ⟨piece, hpiece, -⟩ := hreads.exists_append
    have he : Cursor.mk e.position ((piece ++ ds) ++ rest) = e := by
      rw [List.append_assoc]
      exact congrArg (Cursor.mk e.position) hpiece.symm
    rw [← he] at hstep
    exact .cons hstep.of_append (ih he rfl)

theorem Reads.skipBlanks (h : Reads c ts d) (hts : ts ≠ []) :
    Reads c.skipBlanks ts d ∧ Grammar.start ts = c.skipBlanks.position := by
  cases h with
  | nil => exact absurd rfl hts
  | cons hstep hreads => exact ⟨.cons hstep.skipBlanks.1 hreads, hstep.skipBlanks.2⟩

theorem Reads.stop_eq (h : Reads c ts d) (hts : ts ≠ []) : Grammar.stop ts = d.position := by
  induction h with
  | nil => exact absurd rfl hts
  | @cons c d e t ts hstep hreads ih =>
    cases hreads with
    | nil => exact hstep.stop_eq
    | cons _ _ => rw [Grammar.stop_cons (List.cons_ne_nil _ _), ih (List.cons_ne_nil _ _)]

/-- The tokens before others are cut off one after the other. -/
theorem exists_reads (h : c.tokens = ts ++ us) (hus : us ≠ []) :
    ∃ d, Reads c ts d ∧ d.tokens = us := by
  induction ts generalizing c with
  | nil => exact ⟨c, .nil, h⟩
  | cons t ts ih =>
    cases hnext : c.next? with
    | none =>
      rw [tokens_of_none hnext] at h
      obtain ⟨-, hnil⟩ := List.cons.inj h
      exact absurd (List.append_eq_nil_iff.mp hnil.symm).2 hus
    | some next =>
      have hstep := next?_eq_some_iff.mp hnext
      rw [hstep.tokens_eq] at h
      obtain ⟨rfl, hts⟩ := List.cons.inj h
      obtain ⟨e, hreads, he⟩ := ih hts
      exact ⟨e, .cons hstep hreads, he⟩

/-- The end of the text is behind the blanks at its end. -/
theorem eq_eof_of_tokens (h : c.tokens = [t]) : t = c.eof ∧ c.skipBlanks.rest = [] := by
  cases hnext : c.next? with
  | none =>
    rw [tokens_of_none hnext] at h
    obtain rfl := List.singleton_inj.mp h
    refine ⟨rfl, ?_⟩
    unfold next? at hnext
    dsimp only at hnext
    split at hnext
    · next hrest => exact hrest
    · cases hnext
  | some next =>
    have hstep := next?_eq_some_iff.mp hnext
    rw [hstep.tokens_eq] at h
    obtain ⟨ts, eof, htokens, -⟩ := tokens_eq_append next.2
    simp [htokens] at h

theorem skipBlanks_exists_append (c : Cursor) : ∃ blanks, c.rest = blanks ++ c.skipBlanks.rest ∧
    c.skipBlanks.position = c.position + byteLength blanks :=
  ⟨c.rest.takeWhile isBlank, List.takeWhile_append_dropWhile.symm, rfl⟩

end Cursor

section Sources

open Cursor

variable {source : String} {before us after : List Token} {t : Token}

/-- Tokens that follow each other stand for a piece of the source, and by itself this piece has
these tokens. -/
theorem tokenize_cut (h : tokenize source = before ++ (us ++ after)) (hus : us ≠ [])
    (hafter : after ≠ []) :
    Span.IsWithin ⟨Grammar.start us, Grammar.stop us⟩ source ∧ ∃ (vs : List Token) (eof : Token),
      tokenize (Span.cut ⟨Grammar.start us, Grammar.stop us⟩ source) = vs ++ [eof] ∧
        eof.kind = .eof ∧ vs.map (Token.relocate (· + Grammar.start us)) = us := by
  obtain ⟨c, hc, htokens⟩ := exists_reads h (by simp [hus])
  obtain ⟨d, hd, -⟩ := exists_reads htokens hafter
  obtain ⟨hreads, hstart⟩ := hd.skipBlanks hus
  obtain ⟨front, hfront, hposition⟩ := hc.exists_append
  obtain ⟨blanks, hblanks, hskip⟩ := c.skipBlanks_exists_append
  obtain ⟨piece, hpiece, hstop⟩ := hreads.exists_append
  have hsource : source.toList = (front ++ blanks) ++ (piece ++ d.rest) := by
    rw [← hpiece, List.append_assoc, ← hblanks]
    exact hfront
  have hstart' : Grammar.start us = byteLength (front ++ blanks) := by
    rw [hstart, hskip, hposition, byteLength_append, Nat.zero_add]
  have hstop' : Grammar.stop us = byteLength (front ++ blanks) + byteLength piece := by
    rw [hreads.stop_eq hus, hstop, ← hstart, hstart']
  obtain ⟨hwithin, hcut⟩ := Span.isWithin_of_append hsource
  have hthere : Reads ⟨c.skipBlanks.position, piece ++ d.rest⟩ us ⟨d.position, [] ++ d.rest⟩ := by
    rw [← hpiece]
    exact hreads
  have halone : Reads ⟨c.skipBlanks.position, piece⟩ us ⟨d.position, []⟩ := hthere.of_append
  have hmove : Cursor.mk c.skipBlanks.position piece =
      move (byteLength (front ++ blanks)) ⟨0, piece⟩ := by
    rw [move, Nat.zero_add, ← hstart', hstart]
  have hend : (Cursor.mk d.position []).tokens = [eof ⟨d.position, []⟩] := tokens_of_none rfl
  have hmoved := halone.tokens_eq
  rw [hmove, tokens_move, hend] at hmoved
  obtain ⟨vs, ends, hvs, hus', hends⟩ := List.map_eq_append_iff.mp hmoved
  obtain ⟨eof, rfl, heof⟩ := List.map_eq_singleton_iff.mp hends
  rw [hstop', hstart', hcut]
  refine ⟨hwithin, vs, eof, ?_, congrArg Token.kind heof, hus'⟩
  rw [tokenize, String.toList_ofList, hvs]

theorem isWithin_of_mem_tokenize (h : t ∈ tokenize source) : t.span.IsWithin source := by
  obtain ⟨before, after, hsplit⟩ := List.append_of_mem h
  by_cases hafter : after = []
  · subst hafter
    obtain ⟨c, hc, htokens⟩ := exists_reads hsplit (List.cons_ne_nil _ _)
    obtain ⟨rfl, hend⟩ := eq_eof_of_tokens htokens
    obtain ⟨front, hfront, hposition⟩ := hc.exists_append
    obtain ⟨blanks, hblanks, hskip⟩ := c.skipBlanks_exists_append
    have hsource : source.toList = (front ++ blanks) ++ ([] ++ []) := by
      rw [List.append_nil, List.append_nil, ← List.append_nil (front ++ blanks), ← hend,
        List.append_assoc, ← hblanks]
      exact hfront
    have hwithin := (Span.isWithin_of_append hsource).1
    rw [byteLength_append] at hwithin
    rw [eof, hskip, hposition, Nat.zero_add]
    exact hwithin
  · rw [← List.singleton_append] at hsplit
    exact (tokenize_cut hsplit (List.cons_ne_nil _ _) hafter).1

end Sources

end LinearProgram

import LinearProgram.Proofs.Positions

/-! # No text is lost

The tokens of a source, in order, are its pieces, and only blanks stand between them. Behind the
last piece there is nothing to ask for but the end, again and again.
-/

namespace LinearProgram

open Lexer

namespace Span

/-- A span ends before another begins, with blanks between them. -/
structure Precedes (source : String) (a b : Span) : Prop where
  stop_le_start : a.stop ≤ b.start
  isBlank_between : ∀ c ∈ (cut ⟨a.stop, b.start⟩ source).toList, c ∈ [' ', '\t', '\r']

end Span

/-- The token is the piece of the source that its span covers. -/
structure Token.StandsIn (source : String) (t : Token) : Prop where
  isWithin : t.span.IsWithin source
  cut_eq : t.span.cut source = t.text

namespace Cursor

/-- What repeated requests for the next token return. -/
def request (c : Cursor) : ℕ → Token
  | 0 => c.next.1
  | n + 1 => c.next.2.request n

/-- The cursor stands between two characters of the source. -/
def IsAt (source : String) (c : Cursor) : Prop :=
  ∃ front, source.toList = front ++ c.rest ∧ c.position = byteLength front

variable {source : String} {c d : Cursor} {t : Token} {a b : Span}

theorem isAt_start (source : String) : IsAt source ⟨0, source.toList⟩ := ⟨[], rfl, rfl⟩

theorem rest_skipBlanks_of_none (h : c.next? = none) : c.skipBlanks.rest = [] :=
  (eq_eof_of_tokens (tokens_of_none h)).2

section Steps

theorem IsAt.of_step (hc : c.IsAt source) (h : Step c t d) : d.IsAt source := by
  obtain ⟨front, hfront, hposition⟩ := hc
  obtain ⟨piece, hrest, hstop⟩ := h.exists_append
  refine ⟨front ++ piece, by rw [hfront, hrest, List.append_assoc], ?_⟩
  rw [hstop, hposition, byteLength_append]

theorem Step.standsIn (h : Step c t d) (hc : c.IsAt source) : t.StandsIn source := by
  obtain ⟨front, hfront, hposition⟩ := hc
  obtain @⟨position, blanks, taken, rest, first, kind, -, -, -⟩ := h
  have hsource : source.toList = (front ++ blanks) ++ ((first :: taken) ++ rest) := by
    rw [hfront, List.append_assoc]
  obtain ⟨hwithin, hcut⟩ := Span.isWithin_of_append hsource
  rw [byteLength_append, ← hposition] at hwithin hcut
  exact ⟨hwithin, hcut⟩

theorem Step.start_lt_stop (h : Step c t d) : t.span.start < t.span.stop := by
  obtain @⟨position, blanks, taken, rest, first, kind, -, -, -⟩ := h
  have hpos := first.utf8Size_pos
  simp only [byteLength]
  omega

theorem Step.kind_ne (h : Step c t d) : t.kind ≠ .eof :=
  (next?_spec (next?_eq_some_iff.mpr h)).1

/-- What follows a cursor, be it a token or the end, is reached over blanks. -/
theorem IsAt.precedes (hc : c.IsAt source) (ha : a.stop = c.position)
    (hb : b.start = c.skipBlanks.position) : a.Precedes source b := by
  obtain ⟨front, hfront, hposition⟩ := hc
  have hsource : source.toList =
      front ++ (c.rest.takeWhile isBlank ++ c.rest.dropWhile isBlank) := by
    rw [List.takeWhile_append_dropWhile, hfront]
  obtain ⟨hwithin, hcut⟩ := Span.isWithin_of_append hsource
  rw [← hposition] at hwithin hcut
  obtain ⟨a₀, a₁⟩ := a
  obtain ⟨b₀, b₁⟩ := b
  obtain rfl : a₁ = c.position := ha
  obtain rfl : b₀ = c.position + byteLength (c.rest.takeWhile isBlank) := hb
  refine ⟨hwithin.start_le_stop, fun x hx => ?_⟩
  rw [hcut, String.toList_ofList] at hx
  simpa using isBlank_iff.mp (List.mem_takeWhile_imp hx)

theorem IsAt.eof_eq (hc : c.IsAt source) (h : c.next? = none) :
    c.eof = ⟨.eof, ⟨source.utf8ByteSize, source.utf8ByteSize⟩, ""⟩ := by
  obtain ⟨front, hfront, hposition⟩ := hc
  obtain ⟨blanks, hblanks, hskip⟩ := c.skipBlanks_exists_append
  have hsource : source = String.ofList (front ++ blanks) := by
    rw [rest_skipBlanks_of_none h, List.append_nil] at hblanks
    rw [← hblanks, ← hfront, String.ofList_toList]
  have hend : c.skipBlanks.position = source.utf8ByteSize := by
    rw [hskip, hposition, ← byteLength_append, ← utf8ByteSize_ofList, ← hsource]
  rw [eof, hend]

end Steps

section Runs

/-- Before the end every request takes something off the text, and the end is behind all of it. -/
theorem IsAt.exists_tokens_eq (hc : c.IsAt source) : ∃ ts,
    c.tokens = ts ++ [⟨.eof, ⟨source.utf8ByteSize, source.utf8ByteSize⟩, ""⟩] ∧
      ∀ t ∈ ts, t.kind ≠ .eof ∧ t.span.start < t.span.stop ∧ t.StandsIn source := by
  fun_induction tokens c with
  | case1 c hnone => exact ⟨[], congrArg ([·]) (hc.eof_eq hnone), List.forall_mem_nil _⟩
  | case2 c t d hsome _ ih =>
    have hstep := next?_eq_some_iff.mp hsome
    obtain ⟨ts, hts, hall⟩ := ih (hc.of_step hstep)
    refine ⟨t :: ts, congrArg (t :: ·) hts, List.forall_mem_cons.mpr ⟨?_, hall⟩⟩
    exact ⟨hstep.kind_ne, hstep.start_lt_stop, hstep.standsIn hc⟩

theorem IsAt.isChain_tokens (hc : c.IsAt source) (ha : a.stop = c.position) :
    List.IsChain (Span.Precedes source) (a :: c.tokens.map Token.span) := by
  -- The span in front is the one that ends where the cursor stands.
  fun_induction tokens c generalizing a with
  | case1 c _ => exact .cons_cons (hc.precedes ha rfl) (.singleton _)
  | case2 c t d hsome _ ih =>
    have hstep := next?_eq_some_iff.mp hsome
    exact .cons_cons (hc.precedes ha hstep.skipBlanks.2) (ih (hc.of_step hstep) hstep.stop_eq)

/-- At the end every request returns the end. -/
theorem request_of_none (h : c.next? = none) (n : ℕ) : c.request n = c.eof := by
  have hnext : c.next = (c.eof, c.skipBlanks) := by rw [next, h]; rfl
  induction n generalizing c with
  | zero => rw [request, hnext]
  | succ n ih =>
    have hskip : c.skipBlanks = ⟨c.skipBlanks.position, []⟩ := by
      rw [← rest_skipBlanks_of_none h]
    have hagain : c.skipBlanks.next? = none := by rw [hskip]; rfl
    have heof : c.skipBlanks.eof = c.eof := by rw [eof, eof, hskip]; rfl
    rw [request, hnext, ih hagain (by rw [next, hagain]; rfl), heof]

/-- Requests return the tokens one after the other and then repeat the last one. -/
theorem request_eq_getD {ts : List Token} {e : Token} (h : c.tokens = ts ++ [e]) (n : ℕ) :
    c.request n = c.tokens[n]?.getD e := by
  fun_induction tokens c generalizing ts n with
  | case1 c hnone =>
    obtain rfl : c.eof = e := by simpa using congrArg List.getLast? h
    rw [request_of_none hnone]
    cases n <;> rfl
  | case2 c t d hsome _ ih =>
    have hnext : c.next = (t, d) := by rw [next, hsome]; rfl
    cases ts with
    | nil =>
      obtain ⟨us, eof, hus, -⟩ := tokens_eq_append d
      simp [hus] at h
    | cons u ts =>
      cases n with
      | zero => rw [request, hnext]; rfl
      | succ n => rw [request, hnext, ih (List.cons.inj h).2, List.getElem?_cons_succ]

end Runs

end Cursor

theorem standsIn_end (source : String) :
    Token.StandsIn source ⟨.eof, ⟨source.utf8ByteSize, source.utf8ByteSize⟩, ""⟩ := by
  have hsize : source.utf8ByteSize = byteLength source.toList := by
    rw [← utf8ByteSize_ofList, String.ofList_toList]
  obtain ⟨hwithin, hcut⟩ := @Span.isWithin_of_append source source.toList [] [] (by simp)
  rw [byteLength, Nat.add_zero, ← hsize] at hwithin hcut
  exact ⟨hwithin, hcut⟩

/-- The tokens of a source are not empty, all but the last, which is the end of it. In order they
are pieces of the source with nothing but blanks before, between and behind them, and whoever asks
for more gets the end again. -/
theorem tokenize_lossless (source : String) : ∃ (ts : List Token) (eof : Token),
    tokenize source = ts ++ [eof] ∧
      (∀ t ∈ ts, t.kind ≠ .eof ∧ t.span.start < t.span.stop) ∧
      eof = ⟨.eof, ⟨source.utf8ByteSize, source.utf8ByteSize⟩, ""⟩ ∧
      (∀ t ∈ tokenize source, t.StandsIn source) ∧
      List.IsChain (Span.Precedes source) (⟨0, 0⟩ :: (tokenize source).map Token.span) ∧
      ∀ n, Cursor.request ⟨0, source.toList⟩ n = (tokenize source)[n]?.getD eof := by
  have hstart := Cursor.isAt_start source
  obtain ⟨ts, hts, hall⟩ := hstart.exists_tokens_eq
  refine ⟨ts, _, hts, fun t ht => ⟨(hall t ht).1, (hall t ht).2.1⟩, rfl, ?_,
    hstart.isChain_tokens rfl, Cursor.request_eq_getD hts⟩
  rw [tokenize, hts, List.forall_mem_append, List.forall_mem_singleton]
  exact ⟨fun t ht => (hall t ht).2.2, standsIn_end source⟩

example : (tokenize "x ≤ 4\t").map Token.span = [⟨0, 1⟩, ⟨2, 5⟩, ⟨6, 7⟩, ⟨8, 8⟩] := by
  decide +kernel

end LinearProgram

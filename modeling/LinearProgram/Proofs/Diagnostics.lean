import LinearProgram.Language.Diagnostic
import LinearProgram.Proofs.AcceptedTexts
import LinearProgram.Proofs.Positions

/-! # What is marked in a text

A text without marks is one that compiles: no accepted text has an error token. Every mark is in
the text, since the parser fails only at tokens that it was given.
-/

namespace LinearProgram

open Grammar

section Raising

variable {ε β γ : Type} {P : ε → Prop} {x : Except ε β}

/-- Where the result is an error, it is one of these. -/
def Raises (P : ε → Prop) (x : Except ε β) : Prop := ∀ e, x = .error e → P e

theorem raises_ok (b : β) : Raises P (.ok b) := nofun

theorem raises_error {e : ε} (h : P e) : Raises P (.error e : Except ε β) := by
  rintro _ ⟨⟩
  exact h

theorem Raises.bind {f : β → Except ε γ} (hx : Raises P x)
    (hf : ∀ b, x = .ok b → Raises P (f b)) : Raises P (x >>= f) := by
  cases x with
  | ok b => exact hf b rfl
  | error e => exact raises_error (hx e rfl)

theorem raises_mapM {f : β → Except ε γ} (hf : ∀ b, Raises P (f b)) (bs : List β) :
    Raises P (bs.mapM f) := by
  induction bs with
  | nil => exact raises_ok []
  | cons b bs ih =>
    rw [List.mapM_cons]
    exact (hf b).bind fun c _ => ih.bind fun cs _ => raises_ok _

end Raising

/-- An unexpected token is one of these, and so is a number that does not read as one. -/
def ParseError.IsAmong (ts : List Token) : ParseError → Prop
  | unexpectedToken _ found => found ∈ ts
  | invalidNumber text => ∃ t ∈ ts, t.text = text ∧ ¬ Parser.IsLegible t
  | unexpectedEof => True

namespace Parser

variable {α β : Type} [Scalar α] {ts us rest : List Token} {t : Token}

/-- The reader fails only at these tokens. -/
abbrev FailsIn (ts : List Token) (x : Except ParseError β) : Prop :=
  Raises (ParseError.IsAmong ts) x

theorem FailsIn.mono {x : Except ParseError β} (h : FailsIn us x) (hsub : us ⊆ ts) :
    FailsIn ts x := by
  intro e he
  have hamong := h e he
  cases e with
  | unexpectedToken expected found => exact hsub hamong
  | invalidNumber text =>
    obtain ⟨t, ht, htext, hread⟩ := hamong
    exact ⟨t, hsub ht, htext, hread⟩
  | unexpectedEof => trivial

/-- The reader fails only at tokens that it was given. -/
def Complains (read : ∀ ts, Reading (Located α) ts) (ts : List Token) : Prop :=
  FailsIn ts (read ts)

/-- The reader goes on behind what was read, and fails only at tokens that were given. -/
def ComplainsBehind (read : ∀ ts, Parsed (Located α) ts → Reading (Located α) ts)
    (ts : List Token) (left : Parsed (Located α) ts) : Prop :=
  left.rest ⊆ ts → FailsIn ts (read ts left)

theorem Takes.subset {level : Level} {v : Located α} (h : Takes level ts v rest) : rest ⊆ ts := by
  obtain ⟨us, rfl, -⟩ := h
  exact List.subset_append_right us rest

/-- What follows a sound reader only gets tokens that the reader was given. -/
theorem Complains.bind {level : Level} {read : ∀ ts, Reading (Located α) ts}
    {f : Parsed (Located α) us → Except ParseError β} (h : Complains read us)
    (hsound : IsSound level read us) (hsub : us ⊆ ts)
    (hf : ∀ v, v.rest ⊆ ts → FailsIn ts (f v)) : FailsIn ts (read us >>= f) :=
  Raises.bind (FailsIn.mono h hsub) fun v hv =>
    hf v (List.Subset.trans (hsound v hv).subset hsub)

omit [Scalar α] in
theorem complains_close {inner : Parsed (Located α) rest} (h : inner.rest ⊆ rest) :
    FailsIn (t :: rest) (close inner : Reading (Located α) (t :: rest)) := by
  obtain ⟨v, after, hlt⟩ := inner
  cases after with
  | nil => exact raises_error trivial
  | cons closing after =>
    unfold close
    dsimp only
    split
    · exact raises_ok _
    · exact raises_error (List.mem_cons_of_mem t (h List.mem_cons_self))

/-- All readers of expressions fail only at tokens that they were given. -/
theorem complains : (∀ ts, Complains (α := α) sum ts) ∧
    (∀ ts left, ComplainsBehind (α := α) sumTail ts left) ∧
    (∀ ts, Complains (α := α) product ts) ∧
    (∀ ts left, ComplainsBehind (α := α) productTail ts left) ∧
    (∀ ts, Complains (α := α) signed ts) ∧ ∀ ts, Complains (α := α) operand ts := by
  obtain ⟨hsum, -, hproduct, -, hsigned, -⟩ := isSound (α := α)
  -- one induction goes through the branches of all six, as for soundness, which says what is left
  refine sum.mutual_induct (Complains sum) (ComplainsBehind sumTail) (Complains product)
    (ComplainsBehind productTail) (Complains signed) (Complains operand)
    ?_ ?_ ?_ ?_ ?_ ?_ ?_ ?_ ?_ ?_ ?_ ?_ ?_ ?_ ?_ ?_ ?_ ?_ ?_ ?_
  -- sums
  · intro ts ihproduct ihtail
    unfold Complains
    rw [sum_eq]
    exact ihproduct.bind (hproduct ts) (List.Subset.refl ts) ihtail
  · rintro ts ⟨v, rest, h⟩ - rfl -
    rw [sumTail_nil]
    exact raises_ok _
  · rintro ts ⟨v, rest, h⟩ - t rest' rfl - ht -
    rw [sumTail_of_none h ht]
    exact raises_ok _
  · rintro ts ⟨v, rest, h⟩ _ t rest' rfl _ op ht ihproduct ihtail hsub
    have hrest : rest' ⊆ ts := List.Subset.trans (List.subset_cons_self t rest') hsub
    rw [sumTail_of_some h ht]
    exact ihproduct.bind (hproduct rest') hrest ihtail
  -- products
  · intro ts ihsigned ihtail
    unfold Complains
    rw [product_eq]
    exact ihsigned.bind (hsigned ts) (List.Subset.refl ts) ihtail
  · rintro ts ⟨v, rest, h⟩ - rfl -
    rw [productTail_nil]
    exact raises_ok _
  · rintro ts ⟨v, rest, h⟩ _ t rest' rfl _ op ht ihsigned ihtail hsub
    have hrest : rest' ⊆ ts := List.Subset.trans (List.subset_cons_self t rest') hsub
    rw [productTail_of_sign h ht]
    exact ihsigned.bind (hsigned rest') hrest ihtail
  · rintro ts ⟨v, rest, h⟩ _ t rest' rfl _ ht hf ihsigned ihtail hsub
    rw [productTail_of_factor h ht hf]
    exact ihsigned.bind (hsigned (t :: rest')) hsub ihtail
  · rintro ts ⟨v, rest, h⟩ - t rest' rfl - ht hf -
    rw [productTail_of_none h ht (Bool.eq_false_iff.mpr hf)]
    exact raises_ok _
  -- signed operands
  · intro ihoperand
    unfold Complains
    rw [signed]
    exact ihoperand
  · intro t rest ht ihsigned
    unfold Complains
    rw [signed_of_minus ht]
    exact (ihsigned.mono (List.subset_cons_self t rest)).bind fun inner _ => raises_ok _
  · intro t rest _ ht ihsigned
    unfold Complains
    rw [signed_of_plus ht]
    exact (ihsigned.mono (List.subset_cons_self t rest)).bind fun inner _ => raises_ok _
  · intro t rest hminus hplus ihoperand
    unfold Complains
    rw [signed_of_ne hminus hplus]
    exact ihoperand
  -- operands
  · unfold Complains
    rw [operand]
    exact raises_error trivial
  · intro t rest ht x hx
    unfold Complains
    rw [operand_of_number ht hx]
    exact raises_ok _
  · intro t rest ht hx
    unfold Complains
    rw [operand]
    simp only [ht, hx]
    refine raises_error ⟨t, List.mem_cons_self, rfl, fun hread => ?_⟩
    rw [hread.number?_eq ht] at hx
    cases hx
  · intro t rest ht
    unfold Complains
    rw [operand_of_ident ht]
    exact raises_ok _
  · intro t rest ht ihsum
    unfold Complains
    rw [operand_of_lparen ht]
    refine (ihsum.mono (List.subset_cons_self t rest)).bind fun inner hinner => ?_
    exact complains_close (hsum rest inner hinner).subset
  · intro t rest ht
    unfold Complains
    rw [operand]
    simp only [ht]
    exact raises_error trivial
  · intro t rest hnumber hident hlparen heof
    unfold Complains
    rw [operand]
    split
    all_goals first
      | contradiction
      | exact raises_error List.mem_cons_self

section Statements

theorem failsIn_links (first : ℕ) (lhs : Expr α) (ts : List Token) :
    FailsIn ts (links first lhs ts) := by
  induction lhs, ts using links.induct with
  | case1 lhs =>
    rw [links]
    exact raises_error trivial
  | case2 lhs t rest ht =>
    rw [links]
    simp only [ht]
    exact raises_error List.mem_cons_self
  | case3 lhs t rest relation ht ih =>
    have hrest : rest ⊆ t :: rest := List.subset_cons_self t rest
    rw [links_of_some ht]
    refine Complains.bind (complains.1 rest) (isSound.1 rest) hrest fun rhs hrhs => ?_
    unfold linksBehind
    dsimp only
    split
    · exact ((ih rhs).mono hrhs).bind fun more _ => raises_ok _
    · exact raises_ok _

theorem failsIn_chain (ts : List Token) :
    FailsIn ts (chain ts : Reading (List (ConstraintStatement α)) ts) := by
  unfold chain
  refine Complains.bind (complains.1 ts) (isSound.1 ts) (List.Subset.refl ts) fun first hfirst => ?_
  exact ((failsIn_links _ _ _).mono hfirst).bind fun more _ => raises_ok _

omit [Scalar α] in
theorem skipLayout_subset (ts : List Token) : skipLayout ts ⊆ ts :=
  (List.dropWhile_sublist isLayout).subset

theorem failsIn_loneChain (ts : List Token) :
    FailsIn ts (loneChain ts : Except ParseError (List (ConstraintStatement α))) := by
  have hskip := skipLayout_subset ts
  unfold loneChain
  refine ((failsIn_chain _).mono hskip).bind fun found hfound => ?_
  obtain ⟨us, hts, -⟩ := chain_sound hfound
  have hleft : found.rest ⊆ skipLayout ts := fun u hu => hts ▸ List.mem_append_right us hu
  have hsub := List.Subset.trans (skipLayout_subset found.rest) (List.Subset.trans hleft hskip)
  split
  · exact raises_error trivial
  · next t rest hrest =>
    have ht : t ∈ skipLayout found.rest := hrest.symm ▸ List.mem_cons_self
    split
    · exact raises_ok _
    · exact raises_error (hsub ht)

theorem failsIn_chains (ts : List Token) :
    FailsIn ts (chains ts : Reading (List (ConstraintStatement α)) ts) := by
  induction ts using chains.induct with
  | case1 ts ih =>
    rw [chains_eq]
    refine (failsIn_chain ts).bind fun first hfirst => ?_
    obtain ⟨us, hts, -⟩ := chain_sound hfirst
    obtain ⟨cs, rest, hlt⟩ := first
    cases rest with
    | nil => exact raises_ok _
    | cons t rest =>
      simp only [chainsBehind]
      split
      · refine ((ih ⟨cs, t :: rest, hlt⟩ t rest rfl).mono ?_).bind fun more _ => raises_ok _
        rw [hts]
        exact List.Subset.trans (List.subset_cons_self t rest) (List.subset_append_right us _)
      · exact raises_ok _

theorem failsIn_objective (sense : Sense) (start : ℕ) (ts : List Token) :
    FailsIn ts (objective sense start ts : Reading (ObjectiveStatement α) ts) := by
  obtain ⟨colon, hcolon, -⟩ := colon_skipColon ts
  obtain ⟨naming, hnaming, -⟩ := naming_objectiveName (skipColon ts)
  unfold objective
  refine (FailsIn.mono (complains.1 _) ?_).bind fun e _ => raises_ok _
  intro t ht
  rw [hcolon, hnaming]
  exact List.mem_append_right _ (List.mem_append_right _ ht)

theorem failsIn_line (ts : List Token) :
    FailsIn ts (line ts : Reading (List (Statement α)) ts) := by
  cases ts with
  | nil =>
    unfold line
    exact raises_error trivial
  | cons t rest =>
    by_cases hkeyword : ∃ sense, Keyword t.kind sense
    · obtain ⟨sense, hkeyword⟩ := hkeyword
      rw [line_of_keyword hkeyword]
      refine ((failsIn_objective _ _ _).mono ?_).bind fun o _ => raises_ok _
      exact List.subset_cons_self t rest
    · rw [line_of_not_keyword (not_exists.mp hkeyword)]
      exact (failsIn_chains _).bind fun cs _ => raises_ok _

omit [Scalar α] in
theorem failsIn_endStatement (ts : List Token) : FailsIn ts (endStatement ts) := by
  unfold endStatement
  split
  · exact raises_ok _
  · split
    all_goals first
      | exact raises_ok _
      | exact raises_error List.mem_cons_self

omit [Scalar α] in
theorem subset_of_endStatement {behind : { rest : List Token // rest.length ≤ ts.length }}
    (h : endStatement ts = .ok behind) : behind.1 ⊆ ts := by
  rcases endStatement_eq_ok h with ⟨-, hbehind⟩ | ⟨t, hts, -⟩
  · rw [hbehind]
    exact List.Subset.refl ts
  · conv_rhs => rw [hts]
    exact List.subset_cons_self t behind.1

/-- The parser fails only at tokens of the text. -/
theorem failsIn_statements (ts : List Token) :
    FailsIn ts (statements ts : Except ParseError (List (Statement α))) := by
  induction ts using statements.induct (α := α) with
  | case1 ts _ hskip =>
    rw [statements_of_nil hskip]
    exact raises_ok _
  | case2 ts _ t rest hskip ht =>
    rw [statements_of_eof hskip ht]
    exact raises_ok _
  | case3 ts _ t rest hskip ht ih =>
    have hrest : t :: rest ⊆ ts := hskip ▸ skipLayout_subset ts
    rw [statements_of_line hskip ht]
    refine ((failsIn_line _).mono hrest).bind fun found hfound => ?_
    obtain ⟨us, hus, -⟩ := line_sound hfound
    have hleft : found.rest ⊆ t :: rest := fun u hu => hus ▸ List.mem_append_right us hu
    have hfound' : found.rest ⊆ ts := List.Subset.trans hleft hrest
    refine ((failsIn_endStatement _).mono hfound').bind fun behind hbehind => ?_
    have hbehind' : behind.1 ⊆ ts := List.Subset.trans (subset_of_endStatement hbehind) hfound'
    exact ((ih found behind).mono hbehind').bind fun more _ => raises_ok _

end Statements

end Parser

theorem Program.raises_parse {α : Type} [Scalar α] (source : String) :
    Raises (ParseError.IsAmong (tokenize source))
      (Program.parse source : Except ParseError (Program α)) := by
  intro e he
  unfold parse at he
  apply Parser.failsIn_statements (α := α) (tokenize source) e
  cases h : (Parser.statements (tokenize source) : Except ParseError (List (Statement α))) with
  | ok ss => simp [h, Except.map] at he
  | error reason => simpa [h, Except.map] using he

section Compiling

variable {α β : Type} [Scalar α]

/-- The text has been read. -/
def CompileError.IsPastParsing : CompileError α → Prop
  | parse _ => False
  | _ => True

theorem LinearForm.raises_operate (l : LinearForm α) (op : Operator) (r : LinearForm α) :
    Raises CompileError.IsPastParsing (l.operate op r) := by
  cases op with
  | add | sub => exact raises_ok _
  | mul =>
    unfold operate multiply
    dsimp only
    split_ifs
    · exact raises_ok _
    · exact raises_ok _
    · exact raises_error trivial
  | div =>
    unfold operate divide
    dsimp only
    split_ifs
    · exact raises_error trivial
    · exact raises_error trivial
    · exact raises_ok _

theorem Expr.raises_linearize (e : Expr α) : Raises CompileError.IsPastParsing e.linearize := by
  induction e with
  | number x => exact raises_ok _
  | var v => exact raises_ok _
  | neg e ih => exact ih.bind fun form _ => raises_ok _
  | paren e ih => exact ih
  | binary l op r ihl ihr =>
    exact ihl.bind fun left _ => ihr.bind fun right _ => left.raises_operate op right

theorem ConstraintStatement.raises_difference (c : ConstraintStatement α) :
    Raises CompileError.IsPastParsing c.difference :=
  c.lhs.raises_linearize.bind fun _ _ => c.rhs.raises_linearize.bind fun _ _ => raises_ok _

theorem LinearForm.raises_checkKnown (names : List String) (f : LinearForm α) :
    Raises CompileError.IsPastParsing (f.checkKnown names) := by
  unfold checkKnown
  split
  · exact raises_error trivial
  · exact raises_ok _

namespace Declaration

/-- What keeps a program from compiling is no parse error. -/
theorem raises_compile (d : Declaration) (program : Program α) :
    Raises CompileError.IsPastParsing (d.compile program) := by
  have honly : Raises CompileError.IsPastParsing (onlyObjective program) := by
    unfold onlyObjective
    split
    · exact raises_error trivial
    · exact raises_ok _
    · exact raises_error trivial
  have hobjective (o : ObjectiveStatement α) :
      Raises CompileError.IsPastParsing (objectiveForm o) := by
    refine o.expr.raises_linearize.bind fun form _ => ?_
    split_ifs
    · exact raises_ok _
    · exact raises_error trivial
  refine honly.bind fun o _ => (hobjective o).bind fun form _ => ?_
  refine (raises_mapM (fun c => ?_) _).bind fun forms _ => ?_
  · exact c.raises_difference.bind fun _ _ => raises_ok _
  refine (form.raises_checkKnown _).bind fun _ _ => ?_
  refine (raises_mapM (fun f => ?_) _).bind fun cs _ => ?_
  · exact (f.1.raises_checkKnown _).bind fun _ _ => raises_ok _
  dsimp only
  split
  · exact raises_ok _
  · exact raises_error trivial

end Declaration

end Compiling

namespace Diagnostic

variable {source : String}

theorem isWithin_whole (source : String) : Span.IsWithin ⟨0, source.utf8ByteSize⟩ source := by
  refine ⟨Nat.zero_le _, Nat.le_refl _, ?_, ?_⟩
  · exact String.Pos.Raw.isValid_zero
  · exact String.Pos.Raw.isValid_rawEndPos

theorem map_span_ofToken? (ts : List Token) :
    (ts.filterMap ofToken?).map (·.span) = (ts.filter (·.kind = .error)).map (·.span) := by
  induction ts with
  | nil => rfl
  | cons t ts ih =>
    by_cases ht : t.kind = .error
    · simp [ofToken?, ht, ih]
    · simp [ofToken?, ht, ih]

/-- The mark of an error is in the text. -/
theorem isWithin_ofError {e : CompileError Float}
    (h : Declaration.inferred.compileSource source = .error e) :
    (ofError source e).span.IsWithin source := by
  cases e with
  | parse reason =>
    cases reason with
    | unexpectedToken expected found =>
      have hparse : (Program.parse source : Except ParseError (Program Float)) =
          .error (.unexpectedToken expected found) := by
        cases hp : (Program.parse source : Except ParseError (Program Float)) with
        | ok program =>
          simp only [Declaration.compileSource, hp] at h
          exact (Declaration.raises_compile .inferred program _ h).elim
        | error reason =>
          simp only [Declaration.compileSource, hp] at h
          cases h
          rfl
      exact isWithin_of_mem_tokenize (Program.raises_parse source _ hparse)
    | _ => exact isWithin_whole source
  | _ => exact isWithin_whole source

theorem span_ofToken? {t : Token} {d : Diagnostic} (h : ofToken? t = some d) :
    d.span = t.span := by
  unfold ofToken? at h
  split_ifs at h
  cases h
  rfl

end Diagnostic

section Marks

variable {source : String}

theorem diagnostics_of_error (h : ∃ t ∈ tokenize source, t.kind = .error) :
    diagnostics source = (tokenize source).filterMap Diagnostic.ofToken? := by
  obtain ⟨t, ht, herror⟩ := h
  unfold diagnostics
  split
  · next hnone =>
    have hmark := List.filterMap_eq_nil_iff.mp hnone t ht
    simp [Diagnostic.ofToken?, herror] at hmark
  · rfl

theorem diagnostics_of_ne_error (h : ∀ t ∈ tokenize source, t.kind ≠ .error) :
    diagnostics source = match Declaration.inferred.compileSource source with
      | .ok _ => []
      | .error e => [.ofError source e] := by
  have hnone : (tokenize source).filterMap Diagnostic.ofToken? = [] := by
    rw [List.filterMap_eq_nil_iff]
    intro t ht
    simp [Diagnostic.ofToken?, h t ht]
  unfold diagnostics
  split
  · rfl
  · next hmarks => exact absurd hnone hmarks

theorem kind_ne_error_of_parse {α : Type} [Scalar α] {program : Program α}
    (h : Program.parse source = .ok program) : ∀ t ∈ tokenize source, t.kind ≠ .error := by
  intro t ht
  by_cases heof : t.kind = .eof
  · simp [heof]
  · apply (Program.parse_iff_derives.mp h).kind_ne_error t
    rw [beforeEnd_tokenize, List.mem_filter]
    exact ⟨ht, decide_eq_true heof⟩

/-- A text has no marks just when it compiles, every mark is in the text, and where the text has
error tokens there is one mark for each. -/
theorem diagnostics_spec (source : String) :
    (diagnostics source = [] ↔
      ∃ compiled, (Declaration.inferred.compileSource source :
        Except (CompileError Float) (CompiledProblem Float)) = .ok compiled) ∧
    (∀ d ∈ diagnostics source, d.span.IsWithin source) ∧
    ((∃ t ∈ tokenize source, t.kind = .error) →
      (diagnostics source).map (·.span) =
        ((tokenize source).filter (·.kind = .error)).map (·.span)) := by
  refine ⟨?_, ?_, ?_⟩
  · constructor
    · intro h
      unfold diagnostics at h
      split at h
      · split at h
        · next compiled hcompiled => exact ⟨compiled, hcompiled⟩
        · cases h
      · next hmarks => exact absurd h hmarks
    · rintro ⟨compiled, hcompiled⟩
      have hread : ∀ t ∈ tokenize source, t.kind ≠ .error := by
        cases hp : (Program.parse source : Except ParseError (Program Float)) with
        | ok program => exact kind_ne_error_of_parse hp
        | error reason =>
          simp only [Declaration.compileSource, hp] at hcompiled
          cases hcompiled
      rw [diagnostics_of_ne_error hread, hcompiled]
  · intro d hd
    by_cases herror : ∃ t ∈ tokenize source, t.kind = .error
    · rw [diagnostics_of_error herror, List.mem_filterMap] at hd
      obtain ⟨t, ht, hmark⟩ := hd
      rw [Diagnostic.span_ofToken? hmark]
      exact isWithin_of_mem_tokenize ht
    · push Not at herror
      rw [diagnostics_of_ne_error herror] at hd
      split at hd
      · cases hd
      · next e he =>
        obtain rfl := List.mem_singleton.mp hd
        exact Diagnostic.isWithin_ofError he
  · intro h
    rw [diagnostics_of_error h]
    exact Diagnostic.map_span_ofToken? (tokenize source)

theorem diagnostics_spec_strayText : (∃ t ∈ tokenize "max $ x\n@", t.kind = .error) ∧
    (diagnostics "max $ x\n@").map (·.span) = [⟨4, 5⟩, ⟨8, 9⟩] := by
  have h : ∃ t ∈ tokenize "max $ x\n@", t.kind = .error := by decide +kernel
  refine ⟨h, ((diagnostics_spec "max $ x\n@").2.2 h).trans ?_⟩
  decide +kernel

end Marks

end LinearProgram

import LinearProgram.Proofs.Compilation
import LinearProgram.Proofs.LoneChains
import LinearProgram.Proofs.Positions
import LinearProgram.Proofs.PrintedProgram

/-! # Constraints compiled alone and in a program

A chain behind an objective compiles to the constraints that it compiles to by itself. Only a
program is validated.
-/

namespace LinearProgram

open Grammar

section Relocated

variable {α : Type} [Scalar α]

theorem Expr.linearize_relocate (f : ℕ → ℕ) (e : Expr α) :
    (e.relocate f).linearize = e.linearize := by
  induction e with
  | number x => rfl
  | var v => rfl
  | neg e ih => simp only [relocate, linearize, ih]
  | binary l op r ihl ihr => simp only [relocate, linearize, ihl, ihr]
  | paren e ih => simp only [relocate, linearize, ih]

theorem ConstraintStatement.difference_relocate (f : ℕ → ℕ) (c : ConstraintStatement α) :
    (c.relocate f).difference = c.difference := by
  simp only [difference, relocate, Expr.linearize_relocate]

theorem Parser.beforeEnd_map_relocate (f : ℕ → ℕ) (ts : List Token) :
    beforeEnd (ts.map (Token.relocate f)) = (beforeEnd ts).map (Token.relocate f) := by
  unfold beforeEnd
  rw [List.takeWhile_map]
  rfl

end Relocated

section Objective

open Lexer Cursor

theorem lexeme_max (rest : List Char) : lexeme 'm' ('a' :: 'x' :: ' ' :: rest) = (.max, 2) := by
  have hbegins : Alphabet.beginsName 'm' = true := by decide +kernel
  have hrun : run Alphabet.continuesName ('a' :: 'x' :: ' ' :: rest) = 2 := by
    have ha : Alphabet.continuesName 'a' = true := by decide +kernel
    have hx : Alphabet.continuesName 'x' = true := by decide +kernel
    have hspace : Alphabet.continuesName ' ' = false := by decide +kernel
    simp [run, ha, hx, hspace]
  rw [lexeme_of_beginsName rfl hbegins, restOfName, hrun]
  rfl

/-- Behind the objective `max v` and a line feed, the tokens are those of the rest, moved. -/
theorem tokenize_max {v : String} (hv : isName v = true) (c : String) :
    ∃ (keyword name newline : Token) (n : ℕ), keyword.kind = .max ∧ name.kind = .ident ∧
      name.text = v ∧ newline.kind = .newline ∧ tokenize ("max " ++ v ++ "\n" ++ c) =
        keyword :: name :: newline :: (tokenize c).map (Token.relocate (· + n)) := by
  obtain ⟨first, cs, hname, hblank, -, -, hlexeme⟩ := exists_lexeme_of_isName hv
  have hstop : ∀ d ∈ ('\n' :: c.toList).head?, Alphabet.continuesName d = false := by
    rintro d ⟨⟩
    decide +kernel
  have hsource : ("max " ++ v ++ "\n" ++ c).toList =
      [] ++ ('m' :: ['a', 'x'] ++ ([' '] ++ (first :: cs ++ '\n' :: c.toList))) := by
    simp [String.toList_append, hname]
  have hkeyword := @Step.mk 0 [] ['a', 'x'] ([' '] ++ (first :: cs ++ ('\n' :: c.toList))) 'm' _
    (List.forall_mem_nil _) rfl (lexeme_max _)
  have hfirst := fun p => @Step.mk p [' '] cs ('\n' :: c.toList) first _
    (by simp [isBlank]) hblank (hlexeme _ hstop)
  have hnewline := fun p => @Step.mk p [] [] c.toList '\n' .newline (List.forall_mem_nil _) rfl rfl
  have htokens := (Reads.cons hkeyword (.cons (hfirst _) (.cons (hnewline _) .nil))).tokens_eq
  rw [← hsource] at htokens
  have hmoved (p : ℕ) :
      (Cursor.mk p c.toList).tokens = (tokenize c).map (Token.relocate (· + p)) := by
    have hmove := tokens_move p ⟨0, c.toList⟩
    rwa [move, Nat.zero_add] at hmove
  rw [hmoved] at htokens
  refine ⟨_, _, _, _, rfl, rfl, ?_, rfl, htokens⟩
  rw [← hname, String.ofList_toList]

variable {α : Type} [Scalar α]

theorem derives_layout {before ts : List Token} {ss : List (Statement α)}
    (h : ∀ t ∈ before, IsLayout t) (hts : Derives ts ss) : Derives (before ++ ts) ss := by
  induction before with
  | nil => exact hts
  | cons t before ih =>
    obtain ⟨ht, hbefore⟩ := List.forall_mem_cons.mp h
    exact .layout ht (ih hbefore)

theorem endsLine_of_layout {ts : List Token} (h : ∀ t ∈ ts, IsLayout t) : EndsLine ts := by
  cases ts with
  | nil => trivial
  | cons t ts => exact h t List.mem_cons_self

/-- A chain behind the objective `max v` is read as it is by itself, further on. -/
theorem Program.parse_max {v c : String} {ss : List (ConstraintStatement α)}
    (hv : isName v = true) (h : ConstraintStatement.parse c = .ok ss) :
    ∃ (first name : Span) (n : ℕ), Program.parse ("max " ++ v ++ "\n" ++ c) =
      .ok ⟨.objective ⟨first, .maximize, none, .var ⟨name, v⟩⟩ ::
        (ss.map (ConstraintStatement.relocate (· + n))).map .constraint⟩ := by
  obtain ⟨keyword, name, newline, n, hkeyword, hname, rfl, hnewline, htokens⟩ := tokenize_max hv c
  have hend : Parser.beforeEnd (tokenize ("max " ++ name.text ++ "\n" ++ c)) =
      keyword :: name :: newline ::
        (Parser.beforeEnd (tokenize c)).map (Token.relocate (· + n)) := by
    rw [htokens, Parser.beforeEnd_cons (by simp [hkeyword]),
      Parser.beforeEnd_cons (by simp [hname]), Parser.beforeEnd_cons (by simp [hnewline]),
      Parser.beforeEnd_map_relocate]
  have hlone := ConstraintStatement.parse_iff_loneChain.mp h
  generalize Parser.beforeEnd (tokenize c) = ts at hlone hend
  obtain @⟨before, us, after, ss, hbefore, hchain, hafter⟩ := hlone
  have hlayout {ts : List Token} (hts : ∀ t ∈ ts, IsLayout t) :
      ∀ t ∈ ts.map (Token.relocate (· + n)), IsLayout t := by
    rw [List.forall_mem_map]
    exact hts
  have hrest : Derives (after.map (Token.relocate (· + n)) ++ []) ([] : List (Statement α)) :=
    derives_layout (hlayout hafter) .empty
  rw [List.append_nil] at hrest
  have hconstraints := Derives.constraints (.last (hchain.relocate (· + n)))
    (endsLine_of_layout (hlayout hafter)) hrest
  have hlines := Derives.layout (Or.inl hnewline) (derives_layout (hlayout hbefore) hconstraints)
  have hends : EndsLine (newline :: (before ++ (us ++ after)).map (Token.relocate (· + n))) :=
    Or.inl hnewline
  rw [List.map_append, List.map_append] at hends
  have hkeyword' : Keyword keyword.kind .maximize := by
    rw [hkeyword]
    exact .max
  have hobjective : ObjectiveLine (keyword :: ([] ++ ([] ++ [name]))) (_ : ObjectiveStatement α) :=
    .mk hkeyword' .none .none (.term (.factor (.unsigned (.name hname))))
  have hderives := Derives.objective hobjective hends hlines
  rw [List.append_nil] at hderives
  refine ⟨⟨keyword.span.start, stop [name]⟩, name.span, n, ?_⟩
  rw [Program.parse_iff_derives, hend, List.map_append, List.map_append]
  exact hderives

end Objective

section Stages

variable {ε β γ δ : Type} {f : β → Except ε γ} {g : γ → Except ε δ}

/-- Two steps for each element succeed just when the first ones do and then the second ones. -/
theorem mapM_bind_eq_ok {xs : List β} {zs : List δ} : xs.mapM (fun x => f x >>= g) = .ok zs ↔
    ∃ ys, xs.mapM f = .ok ys ∧ ys.mapM g = .ok zs := by
  induction xs generalizing zs with
  | nil =>
    constructor
    · rintro ⟨⟩
      exact ⟨[], rfl, rfl⟩
    · rintro ⟨ys, ⟨⟩, h⟩
      exact h
  | cons x xs ih =>
    rw [List.mapM_cons, List.mapM_cons]
    constructor
    · intro h
      obtain ⟨z, hz, h⟩ := bind_eq_ok.mp h
      obtain ⟨y, hy, hz⟩ := bind_eq_ok.mp hz
      obtain ⟨rest, hrest, h⟩ := bind_eq_ok.mp h
      obtain ⟨ys, hys, hzs⟩ := ih.mp hrest
      cases h
      refine ⟨y :: ys, bind_eq_ok.mpr ⟨y, hy, bind_eq_ok.mpr ⟨ys, hys, rfl⟩⟩, ?_⟩
      rw [List.mapM_cons]
      exact bind_eq_ok.mpr ⟨z, hz, bind_eq_ok.mpr ⟨rest, hzs, rfl⟩⟩
    · rintro ⟨ys', hys', h⟩
      obtain ⟨y, hy, hys'⟩ := bind_eq_ok.mp hys'
      obtain ⟨ys, hys, hys'⟩ := bind_eq_ok.mp hys'
      cases hys'
      rw [List.mapM_cons] at h
      obtain ⟨z, hz, h⟩ := bind_eq_ok.mp h
      obtain ⟨rest, hrest, h⟩ := bind_eq_ok.mp h
      cases h
      exact bind_eq_ok.mpr ⟨z, bind_eq_ok.mpr ⟨y, hy, hz⟩,
        bind_eq_ok.mpr ⟨rest, ih.mpr ⟨ys, hys, hrest⟩, rfl⟩⟩

end Stages

section Validation

variable {α : Type} [Scalar α] {n : ℕ} {cs : List (Constraint α)}

/-- All numbers of the constraint are finite. -/
def Constraint.isFinite (c : Constraint α) : Bool :=
  c.coefficients.all Scalar.isFinite && Scalar.isFinite c.bound

/-- Of constraints that have the right length, those are refused that have other numbers. -/
theorem Constraint.validateFrom_of_length (h : ∀ c ∈ cs, c.coefficients.length = n)
    (number : ℕ) : ((∀ c ∈ cs, c.isFinite = true) → validateFrom n number cs = .ok ()) ∧
      ((¬ ∀ c ∈ cs, c.isFinite = true) →
        ∃ k, validateFrom n number cs = .error (.nonFiniteConstraint k)) := by
  induction cs generalizing number with
  | nil => exact ⟨fun _ => rfl, fun hnot => absurd nofun hnot⟩
  | cons c cs ih =>
    obtain ⟨hlength, hrest⟩ := List.forall_mem_cons.mp h
    obtain ⟨hok, herror⟩ := ih hrest (number + 1)
    have hfirst : c.validate n number =
        if c.isFinite then .ok () else .error (.nonFiniteConstraint number) := by
      rw [validate, if_neg (not_not.mpr hlength)]
      rfl
    rw [List.forall_mem_cons]
    constructor
    · rintro ⟨hc, hcs⟩
      rw [validateFrom, hfirst, if_pos hc]
      exact hok hcs
    · intro hnot
      rw [validateFrom, hfirst]
      by_cases hc : c.isFinite = true
      · rw [if_pos hc]
        exact herror fun hcs => hnot ⟨hc, hcs⟩
      · rw [if_neg hc]
        exact ⟨number, rfl⟩

end Validation

section Compiling

variable {names : List String} {v c : String} {ss : List (ConstraintStatement Float)}
  {cs : List (Constraint Float)}

theorem coefficient_ofVariable (name v : String) :
    Scalar.isFinite ((LinearForm.ofVariable v : LinearForm Float).coefficient name) = true := by
  rw [Scalar.isFinite_iff]
  unfold LinearForm.coefficient LinearForm.ofVariable Terms.single Terms.get?
  simp only [List.lookup_cons, List.lookup_nil]
  split
  · exact Double.hasValue_one.1
  · exact Double.hasValue_zero.1

theorem checkKnown_ofVariable (hv : v ∈ names) :
    (LinearForm.ofVariable v : LinearForm Float).checkKnown names = .ok () := by
  have hsupport : ∀ name ∈ (LinearForm.ofVariable v : LinearForm Float).support, name = v := by
    intro name hname
    obtain ⟨e, he, rfl⟩ := List.mem_map.mp hname
    rw [List.mem_singleton.mp (List.mem_filter.mp he).1]
  have hknown : (LinearForm.ofVariable v : LinearForm Float).support.find?
      (fun name => !names.contains name) = none := by
    rw [List.find?_eq_none]
    intro name hname
    simp [hsupport name hname, hv]
  rw [LinearForm.checkKnown, hknown]

/-- The problem that maximizes one variable under constraints. -/
def maximizing (names : List String) (v : String) (cs : List (Constraint Float)) : Problem Float :=
  ⟨⟨names.map (LinearForm.ofVariable v).coefficient, .maximize⟩, cs⟩

theorem validate_maximizing (hv : v ∈ names) (hcs : cs ≠ []) :
    (maximizing names v cs).validate = Constraint.validateFrom names.length 1 cs := by
  have hcount : (maximizing names v cs).variableCount = names.length := by
    simp [Problem.variableCount, maximizing]
  have hpos : names.length ≠ 0 := by
    intro hzero
    rw [List.length_eq_zero_iff.mp hzero] at hv
    cases hv
  have hfinite : (maximizing names v cs).objective.coefficients.all Scalar.isFinite = true := by
    rw [List.all_eq_true]
    intro a ha
    obtain ⟨name, -, rfl⟩ := List.mem_map.mp ha
    exact coefficient_ofVariable name v
  have hempty : (maximizing names v cs).constraints.isEmpty = false :=
    List.isEmpty_eq_false_iff.mpr hcs
  rw [Problem.validate, hcount, if_neg hpos, hfinite, hempty]
  rfl

namespace Declaration

/-- The form and the relation of a constraint. -/
def formOf (c : ConstraintStatement Float) :
    Except (CompileError Float) (LinearForm Float × Relation) := do
  let form ← c.difference
  .ok (form, c.relation)

/-- The constraint that a form is related to zero, over known variables. -/
def conditionOf (names : List String) (f : LinearForm Float × Relation) :
    Except (CompileError Float) (Constraint Float) := do
  f.1.checkKnown names
  .ok (f.1.toConstraint names f.2)

theorem compile_maximizing {first name : Span} {f : ℕ → ℕ} (hv : v ∈ names) :
    (declared names).compile ⟨.objective ⟨first, .maximize, none, .var ⟨name, v⟩⟩ ::
        (ss.map (ConstraintStatement.relocate f)).map .constraint⟩ =
      ss.mapM formOf >>= fun forms => constraints names forms >>= fun cs =>
        match (maximizing names v cs).validate with
        | .ok () => .ok ⟨names, none, maximizing names v cs⟩
        | .error reason => .error (.invalid reason) := by
  obtain ⟨hobjectives, hconstraints⟩ := Program.parts
    ⟨first, .maximize, none, .var ⟨name, v⟩⟩ (ss.map (ConstraintStatement.relocate f))
  have hconstant : ((LinearForm.ofVariable v : LinearForm Float).constant == 0) = true :=
    Double.hasValue_zero.beq_iff.mpr Double.hasValue_zero
  have hobjective : objectiveForm (⟨first, .maximize, none, .var ⟨name, v⟩⟩ :
      ObjectiveStatement Float) = .ok (.ofVariable v) := if_pos hconstant
  have hforms : (ss.map (ConstraintStatement.relocate f)).mapM formOf = ss.mapM formOf := by
    rw [List.mapM_map]
    congr 1
    funext c
    simp only [formOf, Function.comp_apply, ConstraintStatement.difference_relocate]
    rfl
  unfold compile onlyObjective
  rw [hobjectives, hconstraints]
  change (objectiveForm _ >>= fun form =>
    (ss.map (ConstraintStatement.relocate f)).mapM formOf >>= fun forms =>
      form.checkKnown names >>= fun _ => _) = _
  rw [hobjective, hforms]
  change (ss.mapM formOf >>= fun forms => (LinearForm.ofVariable v).checkKnown names >>= fun _ => _)
    = _
  rw [checkKnown_ofVariable hv]
  rfl

/-- Constraints are compiled by their forms, which are found first or one by one. -/
theorem mapM_constraintOf_eq_ok : ss.mapM (constraintOf names) = .ok cs ↔
    ∃ forms, ss.mapM formOf = .ok forms ∧ constraints names forms = .ok cs := by
  have hstages : constraintOf names = fun c => formOf c >>= conditionOf names := by
    funext c
    unfold constraintOf formOf
    cases c.difference <;> rfl
  rw [hstages]
  exact mapM_bind_eq_ok

theorem ne_nil_of_parse (h : ConstraintStatement.parse c = .ok ss) : ss ≠ [] := by
  have hlone := ConstraintStatement.parse_iff_loneChain.mp h
  generalize Parser.beforeEnd (tokenize c) = ts at hlone
  obtain ⟨-, ⟨-, hlinks⟩, -⟩ := hlone
  cases hlinks <;> exact List.cons_ne_nil _ _

theorem compileConstraints_of_parse (h : ConstraintStatement.parse c = .ok ss) :
    (declared names).compileConstraints c = ss.mapM (constraintOf names) := by
  unfold compileConstraints
  rw [h]
  rfl

theorem exists_parse_of_compileConstraints
    (h : (declared names).compileConstraints c = .ok cs) : ∃ ss : List (ConstraintStatement Float),
      ConstraintStatement.parse c = .ok ss ∧ ss.mapM (constraintOf names) = .ok cs := by
  cases hparse : (ConstraintStatement.parse c :
      Except ParseError (List (ConstraintStatement Float))) with
  | ok ss =>
    rw [compileConstraints_of_parse hparse] at h
    exact ⟨ss, rfl, h⟩
  | error reason =>
    unfold compileConstraints at h
    rw [hparse] at h
    cases h

theorem compileSource_max_of_parse (hv : v ∈ names) (hname : Lexer.isName v = true)
    (h : ConstraintStatement.parse c = .ok ss) :
    (declared names).compileSource ("max " ++ v ++ "\n" ++ c) =
      ss.mapM formOf >>= fun forms => constraints names forms >>= fun cs =>
        match (maximizing names v cs).validate with
        | .ok () => .ok ⟨names, none, maximizing names v cs⟩
        | .error reason => .error (.invalid reason) := by
  obtain ⟨first, name, n, hparse⟩ := Program.parse_max hname h
  unfold compileSource
  rw [hparse]
  exact compile_maximizing hv

/-- A chain that compiles by itself compiles to the same constraints behind an objective, unless a
number in it is not finite; a chain that does not compile by itself does not compile there. -/
theorem compileSource_max (hv : v ∈ names) (hname : Lexer.isName v = true) (c : String) :
    (∀ cs : List (Constraint Float), (declared names).compileConstraints c = .ok cs →
      ((∀ d ∈ cs, d.isFinite = true) → ∃ compiled,
        (declared names).compileSource ("max " ++ v ++ "\n" ++ c) = .ok compiled ∧
          compiled.problem.constraints = cs) ∧
      ((¬ ∀ d ∈ cs, d.isFinite = true) → ∃ k,
        (declared names).compileSource (α := Float) ("max " ++ v ++ "\n" ++ c) =
          .error (.invalid (.nonFiniteConstraint k)))) ∧
    ∀ (ss : List (ConstraintStatement Float)) (reason : CompileError Float),
      ConstraintStatement.parse c = .ok ss →
      (declared names).compileConstraints c = .error reason →
      ∃ reason', (declared names).compileSource (α := Float) ("max " ++ v ++ "\n" ++ c) =
        .error reason' := by
  constructor
  · intro cs hcs
    obtain ⟨ss, hparse, hss⟩ := exists_parse_of_compileConstraints hcs
    obtain ⟨forms, hforms, hconditions⟩ := mapM_constraintOf_eq_ok.mp hss
    obtain ⟨hlength, hwidth⟩ := length_of_constraints hconditions
    have hne : cs ≠ [] := by
      rw [← List.length_pos_iff, hlength, ← (forall₂_of_mapM hforms).length_eq, List.length_pos_iff]
      exact ne_nil_of_parse hparse
    obtain ⟨hok, herror⟩ := Constraint.validateFrom_of_length hwidth 1
    have hcompile := compileSource_max_of_parse hv hname hparse
    rw [hforms] at hcompile
    change _ = constraints names forms >>= _ at hcompile
    rw [hconditions] at hcompile
    simp only [bind, Except.bind, validate_maximizing hv hne] at hcompile
    constructor
    · intro hfinite
      rw [hok hfinite] at hcompile
      exact ⟨_, hcompile, rfl⟩
    · intro hinfinite
      obtain ⟨k, hk⟩ := herror hinfinite
      rw [hk] at hcompile
      exact ⟨k, hcompile⟩
  · intro ss reason hparse hreason
    cases hcompile : (declared names).compileSource (α := Float) ("max " ++ v ++ "\n" ++ c) with
    | error reason' => exact ⟨reason', rfl⟩
    | ok compiled =>
      rw [compileSource_max_of_parse hv hname hparse] at hcompile
      obtain ⟨forms, hforms, hcompile⟩ := bind_eq_ok.mp hcompile
      obtain ⟨cs, hcs, -⟩ := bind_eq_ok.mp hcompile
      have hok := mapM_constraintOf_eq_ok.mpr ⟨forms, hforms, hcs⟩
      rw [compileConstraints_of_parse hparse, hok] at hreason
      cases hreason

/-- A comment, a line feed and a chain of two relations. -/
def commentedChain : String := "# é\n0 <= x <= 2y + 3 // R2"

theorem compileSource_max_commentedChain : "x" ∈ ["x", "y"] ∧ Lexer.isName "x" = true ∧
    ∃ (cs : List (Constraint Float)) (compiled : CompiledProblem Float),
      (declared ["x", "y"]).compileConstraints commentedChain = .ok cs ∧ cs.length = 2 ∧
        (declared ["x", "y"]).compileSource ("max " ++ "x" ++ "\n" ++ commentedChain) =
          .ok compiled ∧ compiled.problem.constraints = cs := by
  have hv : "x" ∈ ["x", "y"] := by decide
  have hname : Lexer.isName "x" = true := by decide +kernel
  have hcs : (declared ["x", "y"]).compileConstraints (α := Float) commentedChain =
      .ok [⟨[-1, 0], .le, 0⟩, ⟨[1, -2], .le, 3⟩] := eq_ok_of_toOption (by decide +kernel)
  obtain ⟨compiled, hcompiled, hconstraints⟩ :=
    ((compileSource_max hv hname commentedChain).1 _ hcs).1 (by decide +kernel)
  exact ⟨hv, hname, _, compiled, hcs, rfl, hcompiled, hconstraints⟩

end Declaration

end Compiling

end LinearProgram

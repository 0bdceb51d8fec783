import LinearProgram.Proofs.AcceptedTexts
import LinearProgram.Proofs.PointCheck
import LinearProgram.Proofs.PrintedForms

/-! # Printed problems read back

A printed problem is a program: an objective and a line for each constraint. It compiles to the
problem that was printed, if the names are told apart and the text of every number names it.
-/

namespace LinearProgram

open Double Grammar

section Equality

/-- Equality of constraints as numbers, for which a zero has no sign. -/
structure Constraint.Equals (c d : Constraint Float) : Prop where
  coefficients : c.coefficients.Forall₂ (fun a b => (a == b) = true) d.coefficients
  relation : c.relation = d.relation
  bound : (c.bound == d.bound) = true

/-- Equality of problems as numbers, for which a zero has no sign. -/
structure Problem.Equals (p q : Problem Float) : Prop where
  coefficients : p.objective.coefficients.Forall₂ (fun a b => (a == b) = true)
    q.objective.coefficients
  sense : p.objective.sense = q.objective.sense
  constraints : p.constraints.Forall₂ Constraint.Equals q.constraints

variable {names : List String} {coefficients : List Float} {f : LinearForm Float} {k q : ℚ}

/-- Coefficients are found by their names. -/
theorem LinearForm.Lists.forall₂ (h : f.Lists (coefficients.zip names) k)
    (hlength : names.length = coefficients.length) {g : Float → Float}
    (hg : ∀ {x y}, HasValue x y → HasValue (g x) y)
    (hfinite : ∀ a ∈ coefficients, a.isFinite = true) :
    (names.map fun name => g (f.coefficient name)).Forall₂ (fun a b => (a == b) = true)
      coefficients := by
  rw [List.forall₂_map_left_iff, List.forall₂_iff_zip]
  refine ⟨hlength, fun {name a} hmem => ?_⟩
  have hswap : (a, name) ∈ coefficients.zip names := by
    rw [← List.zip_swap names coefficients]
    exact List.mem_map_of_mem (f := Prod.swap) hmem
  obtain ⟨c, hc, hvalue⟩ := h.coefficient _ hswap
  rw [(hasValue_value (hfinite a (List.of_mem_zip hmem).2)).beq_iff, LinearForm.coefficient, hc]
  exact hg hvalue

theorem LinearForm.Lists.checkKnown (h : f.Lists (coefficients.zip names) k) :
    f.checkKnown names = .ok () := by
  have hknown : f.support.find? (fun name => !names.contains name) = none := by
    rw [List.find?_eq_none]
    intro name hname
    obtain ⟨⟨n, c⟩, hentry, rfl⟩ := List.mem_map.mp hname
    have hentry := (List.mem_filter.mp hentry).1
    by_contra hunknown
    have hnot : n ∉ (coefficients.zip names).map (·.2) := by
      intro hmem
      obtain ⟨t, ht, rfl⟩ := List.mem_map.mp hmem
      simp [(List.of_mem_zip ht).2] at hunknown
    have hnone := List.lookup_eq_none_iff.mp (h.names n hnot) _ hentry
    simp at hnone
  rw [LinearForm.checkKnown, hknown]

theorem LinearForm.Lists.toConstraint {c : Constraint Float}
    (h : f.Lists (c.coefficients.zip names) (-Double.value c.bound))
    (hlength : names.length = c.coefficients.length)
    (hfinite : ∀ a ∈ c.coefficients, a.isFinite = true) (hbound : c.bound.isFinite = true) :
    (f.toConstraint names c.relation).Equals c := by
  have hconstant := h.constant.neg
  rw [neg_neg] at hconstant
  exact ⟨h.forall₂ hlength HasValue.unsignedZero hfinite, rfl,
    (hasValue_value hbound).beq_iff.mpr (HasValue.unsignedZero hconstant)⟩

end Equality

section Constraints

open Lexer

variable {names : List String} {ts : List Token} {c : Constraint Float}

theorem spells_bound {b : Float} (hb : b.isFinite = true) (hreads : Scalar.readsBack b = true)
    (hts : ts.map word = numberWords (Scalar.compact b).toList) :
    ∃ (e : Expr Float) (x : Float), Spells .sum ts e ∧ e.linearize = .ok (.ofConstant x) ∧
      HasValue x (Double.value b) := by
  obtain ⟨n, ⟨hn, hvalue⟩ | ⟨hn, hvalue⟩⟩ := Scalar.exists_numeral hb hreads
  · rw [hn, numberWords_chars] at hts
    obtain ⟨e, x, hspells, hlinear, hx⟩ := @spells_signed _ false _ _ hvalue hts
    exact ⟨e, x, .term (.factor hspells), hlinear, hx⟩
  · rw [hn] at hts
    obtain ⟨e, x, hspells, hlinear, hx⟩ := @spells_signed _ true _ _ hvalue hts
    rw [if_pos rfl, neg_neg] at hx
    exact ⟨e, x, .term (.factor hspells), hlinear, hx⟩

/-- The numbers of a constraint whose text names them. -/
structure IsWrittenConstraint (c : Constraint Float) : Prop where
  coefficients : ∀ a ∈ c.coefficients, IsWritten a
  isFinite_bound : c.bound.isFinite = true
  readsBack_bound : Scalar.readsBack c.bound = true

theorem exists_chain (h : IsWrittenConstraint c) (hlength : names.length = c.coefficients.length)
    (hne : names ≠ []) (hnames : names.Nodup) (hts : ts.map word = constraintWords names c) :
    ∃ (s : ConstraintStatement Float) (f : LinearForm Float), Chain ts [s] ∧
      s.relation = c.relation ∧ s.difference = .ok f ∧
        f.Lists (c.coefficients.zip names) (-Double.value c.bound) := by
  obtain ⟨us, vs, rfl, hus, hvs⟩ := List.map_eq_append_iff.mp hts
  obtain ⟨t, ws, rfl, ht, hws⟩ := List.map_eq_cons_iff.mp hvs
  have hnames' : ((c.coefficients.zip names).map (·.2)).Nodup := by
    rw [List.map_snd_zip hlength.le]
    exact hnames
  have hterms : c.coefficients.zip names ≠ [] := by
    intro hnil
    have hlen := congrArg List.length hnil
    rw [List.length_zip, ← hlength, min_self] at hlen
    exact hne (List.eq_nil_of_length_eq_zero hlen)
  obtain ⟨lhs, f, hlhs, hf, hlists⟩ := spells_expression hterms
    (fun t ht => h.coefficients t.1 (List.of_mem_zip ht).1) hnames' hus
  obtain ⟨rhs, x, hrhs, hlinear, hx⟩ := spells_bound h.isFinite_bound h.readsBack_bound hws
  have hdenotes : Denotes t.kind c.relation := by
    obtain ⟨hkind, -⟩ := Prod.mk.inj ht
    rw [hkind]
    cases c.relation
    · exact .le
    · exact .ge
    · exact .eq
  refine ⟨_, _, .mk hlhs (.last hdenotes hrhs), rfl, ?_, hlists.sub_constant hx⟩
  rw [ConstraintStatement.difference, hf, hlinear]
  rfl

/-- The lines of the constraints are statements, which are reduced to the constraints again. -/
theorem exists_lines {constraints : List (Constraint Float)} (hne : names ≠ [])
    (hnames : names.Nodup) (h : ∀ c ∈ constraints, IsWrittenConstraint c ∧
      names.length = c.coefficients.length)
    (hts : ts.map word = linesWords names constraints) :
    EndsLine ts ∧ ∃ (ss : List (ConstraintStatement Float))
      (forms : List (LinearForm Float × Relation)) (cs : List (Constraint Float)),
        Derives ts (ss.map .constraint) ∧
        ss.mapM (fun c => do
          let form ← c.difference
          .ok (form, c.relation)) = (.ok forms : Except (CompileError Float) _) ∧
        Declaration.constraints names forms = .ok cs ∧
        cs.Forall₂ Constraint.Equals constraints := by
  induction constraints generalizing ts with
  | nil =>
    obtain rfl := List.map_eq_nil_iff.mp hts
    exact ⟨trivial, [], [], [], .empty, rfl, rfl, .nil⟩
  | cons c constraints ih =>
    obtain ⟨⟨hc, hlength⟩, hrest⟩ := List.forall_mem_cons.mp h
    obtain ⟨newline, us, rfl, hnewline, hus⟩ := List.map_eq_cons_iff.mp hts
    obtain ⟨vs, ws, rfl, hvs, hws⟩ := List.map_eq_append_iff.mp hus
    obtain ⟨hkind, -⟩ := Prod.mk.inj hnewline
    obtain ⟨s, f, hchain, hrelation, hdifference, hlists⟩ := exists_chain hc hlength hne hnames hvs
    obtain ⟨hends, ss, forms, cs, hderives, hforms, hcs, hequals⟩ := ih hrest hws
    refine ⟨Or.inl hkind, s :: ss, (f, c.relation) :: forms,
      f.toConstraint names c.relation :: cs, ?_, ?_, ?_, ?_⟩
    · exact .layout (Or.inl hkind) (.constraints (.last hchain) hends hderives)
    · rw [List.mapM_cons, hdifference, hforms, ← hrelation]
      rfl
    · rw [Declaration.constraints] at hcs ⊢
      rw [List.mapM_cons, hcs]
      dsimp only
      rw [hlists.checkKnown]
      rfl
    · exact .cons (hlists.toConstraint hlength (fun a ha => (hc.coefficients a ha).1)
        hc.isFinite_bound) hequals

end Constraints

section Validation

variable {p q : Problem Float}

/-- What equals finite numbers is finite. -/
theorem isFinite_of_forall₂ {xs ys : List Float} (h : xs.Forall₂ (fun a b => (a == b) = true) ys)
    (hys : ∀ y ∈ ys, Scalar.isFinite y = true) : ∀ x ∈ xs, Scalar.isFinite x = true := by
  induction h with
  | nil => exact fun _ hx => absurd hx List.not_mem_nil
  | cons hxy _ ih =>
    rw [List.forall_mem_cons] at hys ⊢
    refine ⟨?_, ih hys.2⟩
    rw [Scalar.isFinite_iff]
    exact ((beq_iff_value ((Scalar.isFinite_iff _).mp hys.1)).mp hxy).1

/-- The rows that equal accepted ones as numbers are accepted. -/
theorem Constraint.validateFrom_of_equals {cs ds : List (Constraint Float)} {n : ℕ}
    (h : cs.Forall₂ Constraint.Equals ds)
    (hds : ∀ d ∈ ds, d.coefficients.length = n ∧
      (∀ a ∈ d.coefficients, Scalar.isFinite a = true) ∧ Scalar.isFinite d.bound = true)
    (number : ℕ) : Constraint.validateFrom n number cs = .ok () := by
  rw [Constraint.validateFrom_eq_ok_iff]
  induction h with
  | nil => exact List.forall_mem_nil _
  | @cons c d cs ds hcd _ ih =>
    obtain ⟨⟨hlength, hcoefficients, hbound⟩, hrest⟩ := List.forall_mem_cons.mp hds
    have hfinite := ((beq_iff_value ((Scalar.isFinite_iff _).mp hbound)).mp hcd.bound).1
    refine List.forall_mem_cons.mpr ⟨⟨hcd.coefficients.length_eq.trans hlength, ?_, ?_⟩, ih hrest⟩
    · exact isFinite_of_forall₂ hcd.coefficients hcoefficients
    · exact (Scalar.isFinite_iff _).mpr hfinite

/-- A problem that equals an accepted one as numbers is accepted. -/
theorem Problem.Equals.validate (h : p.Equals q) (hq : q.validate = .ok ()) :
    p.validate = .ok () := by
  obtain ⟨hcount, hnonempty⟩ := Problem.nonempty_of_validate hq
  obtain ⟨hobjective, hconstraints⟩ := Problem.of_validate hq
  have hlength : p.variableCount = q.variableCount := h.coefficients.length_eq
  have hfinite := List.all_eq_true.mpr (isFinite_of_forall₂ h.coefficients hobjective)
  have hempty : p.constraints.isEmpty = false := by
    rw [List.isEmpty_eq_false_iff]
    intro hnil
    have hlen := h.constraints.length_eq
    rw [hnil] at hlen
    exact hnonempty (List.eq_nil_of_length_eq_zero hlen.symm)
  rw [Problem.validate, if_neg (hlength ▸ hcount), hfinite, hempty, hlength]
  exact Constraint.validateFrom_of_equals h.constraints hconstraints 1

end Validation

section Program

variable {p : Problem Float} {names : List String}

/-- The numbers that the text of a problem holds: magnitudes of coefficients, and bounds. -/
def Problem.writtenNumbers (p : Problem Float) : List Float :=
  (p.objective.coefficients ++ p.constraints.flatMap (·.coefficients)).map Scalar.abs ++
    p.constraints.map (·.bound)

/-- The tokens of a text that are left without the last one. -/
theorem exists_tokens {source : String} {ws : List (TokenKind × String)}
    (h : Lexer.words source.toList = ws ++ [(.eof, "")]) : ∃ ts : List Token, ts.map word = ws ∧
      Parser.beforeEnd (tokenize source) = ts := by
  obtain ⟨ts, eof, hts, heof, hall⟩ := Cursor.tokens_eq_append ⟨0, source.toList⟩
  rw [Lexer.words, hts, List.map_append] at h
  refine ⟨ts, (List.append_inj' h rfl).1, ?_⟩
  rw [tokenize, hts, Parser.beforeEnd_append fun t ht => (hall t ht).1,
    Parser.beforeEnd_of_eof heof, List.append_nil]

/-- The numbers of a problem that is accepted and whose text names them. -/
theorem Problem.isWritten (hp : p.validate = .ok ())
    (hnumbers : ∀ x ∈ p.writtenNumbers, Scalar.readsBack x = true) :
    (∀ a ∈ p.objective.coefficients, IsWritten a) ∧
      ∀ c ∈ p.constraints, IsWrittenConstraint c ∧ c.coefficients.length = p.variableCount := by
  obtain ⟨hobjective, hconstraints⟩ := Problem.of_validate hp
  simp only [writtenNumbers, List.map_append, List.forall_mem_append] at hnumbers
  obtain ⟨⟨hmagnitudes, hrows⟩, hbounds⟩ := hnumbers
  constructor
  · intro a ha
    exact ⟨(Scalar.isFinite_iff a).mp (hobjective a ha), hmagnitudes _ (List.mem_map_of_mem ha)⟩
  · intro c hc
    obtain ⟨hlength, hfinite, hbound⟩ := hconstraints c hc
    refine ⟨⟨fun a ha => ⟨(Scalar.isFinite_iff a).mp (hfinite a ha), ?_⟩,
      (Scalar.isFinite_iff _).mp hbound, hbounds _ (List.mem_map_of_mem hc)⟩, hlength⟩
    exact hrows _ (List.mem_map_of_mem (List.mem_flatMap.mpr ⟨c, hc, ha⟩))

/-- The text of a problem is parsed as its objective and its constraints. -/
theorem exists_parse (hp : p.validate = .ok ()) (hnames : names.Nodup)
    (hlength : names.length = p.variableCount) (hident : ∀ name ∈ names, Lexer.isName name = true)
    (hnumbers : ∀ x ∈ p.writtenNumbers, Scalar.readsBack x = true) :
    ∃ (o : ObjectiveStatement Float) (f : LinearForm Float) (ss : List (ConstraintStatement Float))
      (forms : List (LinearForm Float × Relation)) (cs : List (Constraint Float)),
        Program.parse (p.text names) = .ok ⟨.objective o :: ss.map .constraint⟩ ∧
        o.sense = p.objective.sense ∧ o.name = none ∧ o.expr.linearize = .ok f ∧
        f.Lists (p.objective.coefficients.zip names) 0 ∧
        ss.mapM (fun c => do
          let form ← c.difference
          .ok (form, c.relation)) = (.ok forms : Except (CompileError Float) _) ∧
        Declaration.constraints names forms = .ok cs ∧
        cs.Forall₂ Constraint.Equals p.constraints := by
  obtain ⟨hobjective, hconstraints⟩ := Problem.isWritten hp hnumbers
  obtain ⟨hcount, -⟩ := Problem.nonempty_of_validate hp
  have hne : names ≠ [] := by
    rintro rfl
    exact hcount hlength.symm
  have hterms : ∀ {coefficients : List Float}, (∀ a ∈ coefficients, IsWritten a) →
      ∀ t ∈ coefficients.zip names, Lexer.IsTerm t := fun h t ht =>
    ⟨(h t.1 (List.of_mem_zip ht).1).1, hident t.2 (List.of_mem_zip ht).2⟩
  obtain ⟨ts, hts, htokens⟩ := exists_tokens (Lexer.words_text (hterms hobjective)
    fun c hc => ⟨hterms (hconstraints c hc).1.coefficients, (hconstraints c hc).1.isFinite_bound⟩)
  obtain ⟨keyword, us, rfl, hkeyword, hus⟩ := List.map_eq_cons_iff.mp hts
  obtain ⟨vs, ws, rfl, hvs, hws⟩ := List.map_eq_append_iff.mp hus
  have hterms' : p.objective.coefficients.zip names ≠ [] := by
    intro hnil
    have hlen := congrArg List.length hnil
    rw [List.length_zip, hlength] at hlen
    exact hcount ((min_self _).symm.trans hlen)
  have hnames' : ((p.objective.coefficients.zip names).map (·.2)).Nodup := by
    rw [List.map_snd_zip hlength.le]
    exact hnames
  obtain ⟨e, f, hspells, hlinear, hlists⟩ := spells_expression hterms'
    (fun t ht => hobjective t.1 (List.of_mem_zip ht).1) hnames' hvs
  obtain ⟨hends, ss, forms, cs, hderives, hforms, hcs, hequals⟩ := exists_lines hne hnames
    (fun c hc => ⟨(hconstraints c hc).1, hlength.trans (hconstraints c hc).2.symm⟩) hws
  have hsense : Keyword keyword.kind p.objective.sense := by
    obtain ⟨hkind, -⟩ := Prod.mk.inj hkeyword
    rw [hkind]
    cases p.objective.sense
    · exact .max
    · exact .min
  refine ⟨⟨⟨keyword.span.start, stop vs⟩, p.objective.sense, none, e⟩, f, ss, forms, cs, ?_, rfl,
    rfl, hlinear, hlists, hforms, hcs, hequals⟩
  have hprogram := Derives.objective (.mk hsense .none .none hspells) hends hderives
  have htokens' : Parser.beforeEnd (tokenize (p.text names)) =
      keyword :: ([] ++ ([] ++ vs)) ++ ws := htokens
  rw [← htokens'] at hprogram
  rw [Program.parse, (Parser.statements_eq_ok_iff fun _ => isLegible_of_mem_tokenize).mpr hprogram]
  rfl

theorem Program.parts (o : ObjectiveStatement Float) (ss : List (ConstraintStatement Float)) :
    (⟨.objective o :: ss.map .constraint⟩ : Program Float).objectives = [o] ∧
      (⟨.objective o :: ss.map .constraint⟩ : Program Float).constraints = ss := by
  constructor
  · rw [objectives, List.filterMap_cons, List.filterMap_map]
    exact congrArg (o :: ·) (List.filterMap_eq_nil_iff.mpr fun _ _ => rfl)
  · rw [constraints, List.filterMap_cons, List.filterMap_map]
    exact List.filterMap_some

/-- The text of a problem compiles to the problem: its terms, signs, numbers and relations are read
as they were written. -/
theorem Declaration.compileSource_text (hp : p.validate = .ok ()) (hnames : names.Nodup)
    (hlength : names.length = p.variableCount) (hident : ∀ name ∈ names, Lexer.isName name = true)
    (hnumbers : ∀ x ∈ p.writtenNumbers, Scalar.readsBack x = true) :
    ∃ q : Problem Float, (declared names).compileSource (p.text names) = .ok ⟨names, none, q⟩ ∧
      q.Equals p := by
  obtain ⟨o, f, ss, forms, cs, hparse, hsense, hname, hlinear, hlists, hforms, hcs, hequals⟩ :=
    exists_parse hp hnames hlength hident hnumbers
  let q : Problem Float := ⟨⟨names.map f.coefficient, o.sense⟩, cs⟩
  have hq : q.Equals p := ⟨hlists.forall₂ hlength (fun h => h)
    (fun a ha => ((Problem.isWritten hp hnumbers).1 a ha).1), hsense, hequals⟩
  refine ⟨q, ?_, hq⟩
  have hconstant : (f.constant == 0) = true := hasValue_zero.beq_iff.mpr hlists.constant
  have hobjective : objectiveForm o = .ok f := by
    rw [objectiveForm, hlinear]
    exact if_pos hconstant
  obtain ⟨hobjectives, hconstraints⟩ := Program.parts o ss
  rw [compileSource, hparse]
  change (declared names).compile _ = _
  rw [compile, onlyObjective, hobjectives, hconstraints]
  change (do
    let form ← objectiveForm o
    _) = _
  rw [hobjective, hforms]
  simp only [bind, Except.bind, order, hlists.checkKnown, hcs]
  rw [hq.validate hp, hname]

/-- Signs, zeros with a sign, decimal places and a number of sixteen digits. -/
def signedProblem : Problem Float :=
  ⟨⟨[-3, 2.5, -0], .maximize⟩, [⟨[1, -0.25, 0], .le, -4⟩, ⟨[-0, 1000000000000000, -1.5], .eq, -0⟩]⟩

theorem Declaration.compileSource_text_signedProblem :
    signedProblem.validate = .ok () ∧ ["x", "y_2", "e5"].Nodup ∧
      (∀ name ∈ ["x", "y_2", "e5"], Lexer.isName name = true) ∧
      (∀ x ∈ signedProblem.writtenNumbers, Scalar.readsBack x = true) ∧
      ∃ q : Problem Float, (declared ["x", "y_2", "e5"]).compileSource
        (signedProblem.text ["x", "y_2", "e5"]) = .ok ⟨["x", "y_2", "e5"], none, q⟩ ∧
          q.Equals signedProblem := by
  have hp : signedProblem.validate = .ok () := by decide +kernel
  have hnames : ["x", "y_2", "e5"].Nodup := by decide
  have hident : ∀ name ∈ ["x", "y_2", "e5"], Lexer.isName name = true := by decide +kernel
  have hnumbers : ∀ x ∈ signedProblem.writtenNumbers, Scalar.readsBack x = true := by
    decide +kernel
  exact ⟨hp, hnames, hident, hnumbers, compileSource_text hp hnames rfl hident hnumbers⟩

example : signedProblem.text ["x", "y_2", "e5"] = "max -3x + 2.5y_2 + 0e5\n" ++
    "1x - 0.25y_2 + 0e5 <= -4\n" ++ "0x + 1000000000000000y_2 - 1.5e5 = 0" := by
  decide +kernel

end Program

end LinearProgram

import LinearProgram.Proofs.Compilation

/-! # Names found in a program

Without a declaration the variables of a program are the names in the linear forms of its
statements, in order and each once. So the order of the statements does not matter for them.
-/

namespace LinearProgram

section Lists

variable {ε β γ : Type} {f : β → Except ε γ} {xs xs' : List β} {ys : List γ}

/-- Steps that all succeed do so in any order. -/
theorem exists_mapM_of_perm (h : xs.mapM f = .ok ys) (hperm : xs'.Perm xs) :
    ∃ ys', xs'.mapM f = .ok ys' ∧ ys'.Perm ys := by
  obtain ⟨ys', hys', hperm'⟩ := List.perm_comp_forall₂ hperm (forall₂_of_mapM h)
  exact ⟨ys', mapM_of_forall₂ hys', hperm'⟩

end Lists

variable {α : Type} [Scalar α]

theorem Problem.validate_of_perm {o : Objective α} {cs cs' : List (Constraint α)}
    (h : Problem.validate ⟨o, cs⟩ = .ok ()) (hperm : cs'.Perm cs) :
    Problem.validate ⟨o, cs'⟩ = .ok () := by
  rw [validate_eq_ok_iff] at h ⊢
  obtain ⟨hcount, hobjective, hnonempty, hall⟩ := h
  refine ⟨hcount, hobjective, fun hnil => hnonempty ?_, fun c hc => hall c (hperm.mem_iff.mp hc)⟩
  obtain rfl : cs' = [] := hnil
  exact hperm.nil_eq.symm

namespace Declaration

variable {d : Declaration} {program program' : Program α} {o : ObjectiveStatement α}
  {form : LinearForm α} {forms forms' : List (LinearForm α × Relation)}
  {compiled : CompiledProblem α}

omit [Scalar α] in
theorem order_of_perm (d : Declaration) {fs fs' : List (LinearForm α)} (hperm : fs'.Perm fs) :
    d.order fs' = d.order fs := by
  cases d with
  | inferred =>
    exact VariableOrder.sort_eq_of_mem_iff fun name => (hperm.flatMap_right _).mem_iff
  | declared names => rfl

/-- The statements of a program may stand in any order. -/
theorem Stages.exists_of_perm (h : Stages d program o form forms compiled)
    (hperm : program'.statements.Perm program.statements) :
    ∃ compiled', d.compile program' = .ok compiled' ∧ compiled'.names = compiled.names ∧
      compiled'.problem.objective = compiled.problem.objective ∧
      compiled'.problem.constraints.Perm compiled.problem.constraints := by
  obtain ⟨forms', hforms', hforms⟩ := exists_mapM_of_perm h.mapM_eq
    (hperm.filterMap Statement.constraint?)
  obtain ⟨cs', hcs', hcs⟩ := exists_mapM_of_perm h.constraints_eq hforms
  have hobjectives : program'.objectives = [o] := by
    have hsingle := hperm.filterMap Statement.objective?
    rw [← Program.objectives, ← Program.objectives, h.objectives_eq] at hsingle
    exact List.perm_singleton.mp hsingle
  have hnames : d.order (form :: forms'.map (·.1)) = compiled.names := by
    rw [← h.names_eq]
    exact d.order_of_perm ((hforms.map _).cons _)
  refine ⟨⟨compiled.names, compiled.objectiveName, compiled.problem.objective, cs'⟩,
    compile_eq_ok_iff.mpr ⟨o, form, forms', hobjectives, h.objectiveForm_eq, hforms', hnames,
      h.checkKnown_eq, hcs', h.objective_eq, h.objectiveName_eq,
      Problem.validate_of_perm h.validate_eq hcs⟩, rfl, rfl, hcs⟩

/-- Variables found in a program are in order, so each stands there once. They are the names that
occur in the linear form of the objective or of a constraint, however the statements are ordered,
and every row has a coefficient for each. The order is linear on all names. -/
theorem compile_inferred (h : inferred.compile program = .ok compiled) :
    (∃ o form forms, program.objectives = [o] ∧ o.expr.linearize = .ok form ∧
      List.Forall₂ (fun s f => s.difference = .ok f) program.constraints forms ∧
      (∀ name, name ∈ compiled.names ↔ ∃ f ∈ form :: forms, name ∈ f.terms.names) ∧
      compiled.names = (((form :: forms).flatMap (·.terms.names)).mergeSort
        fun a b => (VariableOrder.compare a b).isLE).destutter (· ≠ ·)) ∧
    compiled.names.Pairwise (fun a b => VariableOrder.compare a b = .lt) ∧
    compiled.problem.objective.coefficients.length = compiled.names.length ∧
    (∀ c ∈ compiled.problem.constraints, c.coefficients.length = compiled.names.length) ∧
    (∀ program' : Program α, program'.statements.Perm program.statements →
      ∃ compiled', inferred.compile program' = .ok compiled' ∧
        compiled'.names = compiled.names ∧
        compiled'.problem.objective = compiled.problem.objective ∧
        compiled'.problem.constraints.Perm compiled.problem.constraints) ∧
    (∀ a b, VariableOrder.compare a b = .eq ↔ a = b) ∧
    (∀ a b, VariableOrder.compare b a = (VariableOrder.compare a b).swap) ∧
    ∀ a b c, (VariableOrder.compare a b).isLE → (VariableOrder.compare b c).isLE →
      (VariableOrder.compare a c).isLE := by
  obtain ⟨o, form, forms, hs⟩ := compile_eq_ok_iff.mp h
  have hnames : compiled.names =
      VariableOrder.sort ((form :: forms.map (·.1)).flatMap (·.terms.names)) := hs.names_eq.symm
  have hforms : List.Forall₂ (fun s f => s.difference = .ok f) program.constraints
      (forms.map (·.1)) :=
    List.forall₂_map_right_iff.mpr (hs.forall₂_difference.imp fun _ _ hsf => hsf.1)
  obtain ⟨-, hwidth⟩ := length_of_constraints hs.constraints_eq
  refine ⟨⟨o, form, forms.map (·.1), hs.objectives_eq,
    (objectiveForm_eq_ok_iff.mp hs.objectiveForm_eq).1, hforms, fun name => ?_, ?_⟩, ?_, ?_,
    hwidth, fun program' => hs.exists_of_perm, fun a b => VariableOrder.compare_eq_iff,
    fun a b => Std.OrientedCmp.eq_swap, fun a b c => Std.TransCmp.isLE_trans⟩
  · rw [hnames, VariableOrder.mem_sort, List.mem_flatMap]
  · rw [hnames, VariableOrder.sort_eq_destutter_mergeSort]
  · rw [hnames]
    exact VariableOrder.pairwise_sort _
  · rw [hs.objective_eq, List.length_map]

/-- `max x10 + 0 * x2` between `x02 <= x2 + 1` and `x2 - x2 + x10 >= x99999999999999999999`. Two
names end in the same number, and one in a number that does not fit into 64 bits. -/
def numberedProgram : Program ℚ :=
  let name (s : String) : Expr ℚ := .var ⟨⟨0, 0⟩, s⟩
  ⟨[.constraint ⟨⟨0, 0⟩, name "x02", .le, .binary (name "x2") .add (.number 1)⟩,
    .objective ⟨⟨0, 0⟩, .maximize, none,
      .binary (name "x10") .add (.binary (.number 0) .mul (name "x2"))⟩,
    .constraint ⟨⟨0, 0⟩, .binary (.binary (name "x2") .sub (name "x2")) .add (name "x10"), .ge,
      name "x99999999999999999999"⟩]⟩

theorem compile_inferred_numberedProgram : ∃ compiled,
    inferred.compile numberedProgram = .ok compiled ∧
      compiled.names = ["x99999999999999999999", "x02", "x2", "x10"] ∧
      compiled.names.Pairwise (fun a b => VariableOrder.compare a b = .lt) ∧
      ∃ compiled', inferred.compile ⟨numberedProgram.statements.reverse⟩ = .ok compiled' ∧
        compiled'.names = compiled.names := by
  have h : inferred.compile numberedProgram =
      .ok ⟨["x99999999999999999999", "x02", "x2", "x10"], none,
        ⟨⟨[0, 0, 0, 1], .maximize⟩, [⟨[0, 1, -1, 0], .le, 1⟩, ⟨[-1, 0, 0, 1], .ge, 0⟩]⟩⟩ := by
    cbv
  obtain ⟨-, hordered, -, -, hreordered, -⟩ := compile_inferred h
  obtain ⟨compiled', hcompiled', hnames, -⟩ :=
    hreordered ⟨numberedProgram.statements.reverse⟩ (List.reverse_perm _)
  exact ⟨_, h, rfl, hordered, compiled', hcompiled', hnames⟩

end Declaration

end LinearProgram

import Mathlib
import LinearProgram.Proofs.Evaluation
import LinearProgram.Proofs.VariableOrder

/-! # Compilation preserves values

The names of a compiled problem are distinct and include every name with a coefficient. So reading
coefficients off by name loses none and counts none twice, and a form keeps its value.
-/

namespace LinearProgram

section Lists

variable {ε β γ δ : Type} {xs : List β} {ys : List γ} {zs : List δ}

theorem forall₂_of_mapM {f : β → Except ε γ} (h : xs.mapM f = .ok ys) :
    List.Forall₂ (fun x y => f x = .ok y) xs ys := by
  induction xs generalizing ys with
  | nil =>
    obtain rfl := Except.ok.inj h
    exact .nil
  | cons x xs ih =>
    rw [List.mapM_cons] at h
    obtain ⟨y, hy, h⟩ := bind_eq_ok.mp h
    obtain ⟨rest, hrest, h⟩ := bind_eq_ok.mp h
    obtain rfl := Except.ok.inj h
    exact .cons hy (ih hrest)

theorem mapM_of_forall₂ {f : β → Except ε γ}
    (h : List.Forall₂ (fun x y => f x = .ok y) xs ys) : xs.mapM f = .ok ys := by
  induction h with
  | nil => rfl
  | cons hx _ ih =>
    rw [List.mapM_cons]
    exact bind_eq_ok.mpr ⟨_, hx, bind_eq_ok.mpr ⟨_, ih, rfl⟩⟩

theorem forall₂_trans {R : β → γ → Prop} {S : γ → δ → Prop} {T : β → δ → Prop}
    (hxy : List.Forall₂ R xs ys) (hyz : List.Forall₂ S ys zs)
    (h : ∀ x y z, R x y → S y z → T x z) : List.Forall₂ T xs zs := by
  induction hxy generalizing zs with
  | nil =>
    cases hyz
    exact .nil
  | cons hx _ ih =>
    cases hyz with
    | cons hz hrest => exact .cons (h _ _ _ hx hz) (ih hrest)

end Lists

variable {v : String → ℚ} {names : List String}

theorem Relation.exactly_sub {relation : Relation} {x y k : ℚ} :
    relation.Exactly (x - y - k) (-k) ↔ relation.Exactly x y := by
  cases relation with
  | le =>
    simp only [Exactly]
    constructor <;> intro h <;> linarith
  | ge =>
    simp only [Exactly]
    constructor <;> intro h <;> linarith
  | eq =>
    simp only [Exactly]
    constructor <;> intro h <;> linarith

namespace Terms

theorem lookup_eq_none {α : Type} {name : String} {entries : List (String × α)}
    (h : ∀ e ∈ entries, name < e.1) : entries.lookup name = none := by
  rw [List.lookup_eq_none_iff]
  intro e he
  rw [bne_iff_ne]
  exact String.ne_of_lt (h e he)

/-- Coefficients that are found by name add up to all the terms. -/
theorem sum_lookup_mul (hn : names.Nodup) {entries : List (String × ℚ)}
    (hs : entries.Pairwise fun a b => a.1 < b.1)
    (hk : ∀ e ∈ entries, e.2 ≠ 0 → e.1 ∈ names) :
    (names.map fun name => (entries.lookup name).getD 0 * v name).sum = value v entries := by
  rw [← List.sum_toFinset _ hn]
  induction entries with
  | nil => simp
  | cons e rest ih =>
    obtain ⟨hlt, hrest⟩ := List.pairwise_cons.mp hs
    have hsplit : ∀ name, ((e :: rest).lookup name).getD 0 * v name =
        (if name = e.1 then e.2 * v e.1 else 0) + (rest.lookup name).getD 0 * v name := by
      intro name
      rw [List.lookup_cons]
      by_cases h : name = e.1
      · subst h
        simp [lookup_eq_none hlt]
      · simp [h, beq_false_of_ne h]
    have hhead : (if e.1 ∈ names.toFinset then e.2 * v e.1 else 0) = e.2 * v e.1 := by
      split
      · rfl
      · next h =>
        rw [List.mem_toFinset] at h
        rw [not_imp_comm.mp (hk e List.mem_cons_self) h, zero_mul]
    rw [Finset.sum_congr rfl fun name _ => hsplit name, Finset.sum_add_distrib,
      Finset.sum_ite_eq', hhead, ih hrest fun d hd => hk d (List.mem_cons_of_mem e hd), value_cons]

end Terms

namespace LinearForm

variable {f : LinearForm ℚ}

theorem mem_of_checkKnown (h : f.checkKnown names = .ok ()) {e : String × ℚ}
    (he : e ∈ f.terms.entries) (hne : e.2 ≠ 0) : e.1 ∈ names := by
  rw [checkKnown] at h
  split at h
  · cases h
  · next hfind =>
    have hmem : e.1 ∈ f.support :=
      List.mem_map_of_mem (List.mem_filter.mpr ⟨he, by simpa using hne⟩)
    simpa using List.find?_eq_none.mp hfind e.1 hmem

/-- The coefficients of the listed names, at the values of these names. -/
theorem dot_coefficients (hn : names.Nodup) (h : f.checkKnown names = .ok ()) :
    Scalar.dot (names.map f.coefficient) (names.map v) = f.value v - f.constant := by
  rw [Scalar.dot, Scalar.sum_eq, List.zipWith_map, List.zipWith_self, value, add_sub_cancel_right]
  exact Terms.sum_lookup_mul hn f.terms.sorted fun e he hne => mem_of_checkKnown h he hne

theorem holds_toConstraint {relation : Relation} {x y : ℚ} (hn : names.Nodup)
    (h : f.checkKnown names = .ok ()) (hf : f.value v = x - y) :
    (f.toConstraint names relation).Holds (names.map v) ↔ relation.Exactly x y := by
  rw [Constraint.Holds, Constraint.lhs]
  simp only [toConstraint, Scalar.unsignedZero_eq]
  rw [dot_coefficients hn h, hf, Relation.exactly_sub]

end LinearForm

namespace Declaration

section Stages

variable {α : Type} [Scalar α] {d : Declaration} {program : Program α} {o : ObjectiveStatement α}
  {form : LinearForm α} {forms : List (LinearForm α × Relation)} {compiled : CompiledProblem α}

omit [Scalar α] in
theorem onlyObjective_eq_ok_iff : onlyObjective program = .ok o ↔ program.objectives = [o] := by
  rw [onlyObjective]
  split <;> simp_all

theorem objectiveForm_eq_ok_iff : objectiveForm o = .ok form ↔
    o.expr.linearize = .ok form ∧ (form.constant == 0) = true := by
  rw [objectiveForm, bind_eq_ok]
  constructor
  · rintro ⟨f, hf, h⟩
    split at h
    · next hzero =>
      obtain rfl := Except.ok.inj h
      exact ⟨hf, hzero⟩
    · cases h
  · rintro ⟨hf, hzero⟩
    exact ⟨form, hf, if_pos hzero⟩

/-- Every constraint has a coefficient for each name. -/
theorem length_of_constraints {names : List String}
    {cs : List (Constraint α)}
    (h : constraints names forms = .ok cs) :
    cs.length = forms.length ∧ ∀ d ∈ cs, d.coefficients.length = names.length := by
  have hforall := forall₂_of_mapM h
  refine ⟨hforall.length_eq.symm, ?_⟩
  clear h
  induction hforall with
  | nil => exact nofun
  | cons hd _ ih =>
    refine List.forall_mem_cons.mpr ⟨?_, ih⟩
    obtain ⟨_, -, hd⟩ := bind_eq_ok.mp hd
    cases hd
    exact List.length_map _

/-- The stages of a compilation that succeeds. -/
structure Stages (d : Declaration) (program : Program α) (o : ObjectiveStatement α)
    (form : LinearForm α) (forms : List (LinearForm α × Relation))
    (compiled : CompiledProblem α) : Prop where
  objectives_eq : program.objectives = [o]
  objectiveForm_eq : objectiveForm o = .ok form
  mapM_eq : (program.constraints.mapM fun s => do
    let form ← s.difference
    .ok (form, s.relation)) = .ok forms
  names_eq : d.order (form :: forms.map (·.1)) = compiled.names
  checkKnown_eq : form.checkKnown compiled.names = .ok ()
  constraints_eq : constraints compiled.names forms = .ok compiled.problem.constraints
  objective_eq : compiled.problem.objective = ⟨compiled.names.map form.coefficient, o.sense⟩
  objectiveName_eq : compiled.objectiveName = o.name
  validate_eq : compiled.problem.validate = .ok ()

theorem compile_eq_ok_iff :
    d.compile program = .ok compiled ↔ ∃ o form forms, Stages d program o form forms compiled := by
  constructor
  · intro h
    obtain ⟨o, ho, h⟩ := bind_eq_ok.mp h
    obtain ⟨form, hform, h⟩ := bind_eq_ok.mp h
    obtain ⟨forms, hforms, h⟩ := bind_eq_ok.mp h
    obtain ⟨_, hknown, h⟩ := bind_eq_ok.mp h
    obtain ⟨cs, hcs, h⟩ := bind_eq_ok.mp h
    simp only at h
    split at h
    · next hvalidate =>
      obtain rfl := Except.ok.inj h
      exact ⟨o, form, forms, onlyObjective_eq_ok_iff.mp ho, hform, hforms, rfl, hknown, hcs, rfl,
        rfl, hvalidate⟩
    · cases h
  · rintro ⟨o, form, forms, h⟩
    obtain ⟨names, objectiveName, objective, cs⟩ := compiled
    obtain rfl : d.order (form :: forms.map (·.1)) = names := h.names_eq
    have hobjective : objective = ⟨(d.order (form :: forms.map (·.1))).map form.coefficient,
        o.sense⟩ := h.objective_eq
    have hname : objectiveName = o.name := h.objectiveName_eq
    subst hobjective hname
    refine bind_eq_ok.mpr ⟨o, onlyObjective_eq_ok_iff.mpr h.objectives_eq,
      bind_eq_ok.mpr ⟨form, h.objectiveForm_eq, bind_eq_ok.mpr ⟨forms, h.mapM_eq,
        bind_eq_ok.mpr ⟨(), h.checkKnown_eq, bind_eq_ok.mpr ⟨cs, h.constraints_eq, ?_⟩⟩⟩⟩⟩
    simp only [h.validate_eq]

/-- The forms of the constraint statements, one by one. -/
theorem Stages.forall₂_difference (h : Stages d program o form forms compiled) :
    List.Forall₂ (fun s f => s.difference = .ok f.1 ∧ s.relation = f.2)
      program.constraints forms := by
  refine (forall₂_of_mapM h.mapM_eq).imp ?_
  rintro s f hs
  obtain ⟨g, hg, hs⟩ := bind_eq_ok.mp hs
  obtain rfl := Except.ok.inj hs
  exact ⟨hg, rfl⟩

/-- The compiled constraints, one by one. -/
theorem Stages.forall₂_constraints (h : Stages d program o form forms compiled) :
    List.Forall₂ (fun f c => f.1.checkKnown compiled.names = .ok () ∧
      c = f.1.toConstraint compiled.names f.2) forms compiled.problem.constraints := by
  refine (forall₂_of_mapM h.constraints_eq).imp ?_
  rintro f c hc
  obtain ⟨_, hk, hc⟩ := bind_eq_ok.mp hc
  exact ⟨hk, (Except.ok.inj hc).symm⟩

end Stages

/-- No name is declared twice. -/
def IsDistinct : Declaration → Prop
  | inferred => True
  | declared names => names.Nodup

instance : DecidablePred IsDistinct
  | inferred => inferInstanceAs (Decidable True)
  | declared names => inferInstanceAs (Decidable names.Nodup)

variable {d : Declaration} {program : Program ℚ} {compiled : CompiledProblem ℚ}

theorem nodup_order (hd : d.IsDistinct) (forms : List (LinearForm ℚ)) : (d.order forms).Nodup := by
  cases d with
  | inferred => exact VariableOrder.nodup_sort _
  | declared names => exact hd

/-- What a compiled problem is made of. -/
structure IsCompiled (d : Declaration) (program : Program ℚ) (o : ObjectiveStatement ℚ)
    (form : LinearForm ℚ) (forms : List (LinearForm ℚ × Relation))
    (compiled : CompiledProblem ℚ) : Prop where
  objectives : program.objectives = [o]
  linearize : o.expr.linearize = .ok form
  constant : form.constant = 0
  differences : List.Forall₂ (fun s f => s.difference = .ok f.1 ∧ s.relation = f.2)
    program.constraints forms
  names : compiled.names = d.order (form :: forms.map (·.1))
  known : form.checkKnown compiled.names = .ok ()
  constraints : List.Forall₂ (fun f c => f.1.checkKnown compiled.names = .ok () ∧
    c = f.1.toConstraint compiled.names f.2) forms compiled.problem.constraints
  objective : compiled.problem.objective = ⟨compiled.names.map form.coefficient, o.sense⟩

theorem isCompiled_of_compile (h : d.compile program = .ok compiled) :
    ∃ o form forms, IsCompiled d program o form forms compiled := by
  obtain ⟨o, form, forms, hs⟩ := compile_eq_ok_iff.mp h
  obtain ⟨hlinear, hconstant⟩ := objectiveForm_eq_ok_iff.mp hs.objectiveForm_eq
  exact ⟨o, form, forms, hs.objectives_eq, hlinear, by simpa using hconstant, hs.forall₂_difference,
    hs.names_eq.symm, hs.checkKnown_eq, hs.forall₂_constraints, hs.objective_eq⟩

/-- If a program compiles, then for all values of its names its objective has the value that the
compiled one has at the listed values, and each of its constraints is true if and only if the
compiled one in its place holds there; no expression divides by zero. -/
theorem compile_preserves_values (hd : d.IsDistinct) (h : d.compile program = .ok compiled) :
    ∃ o, program.objectives = [o] ∧ compiled.problem.objective.sense = o.sense ∧
      ∀ v : String → ℚ,
        o.expr.eval? v =
          some (compiled.problem.objective.evaluate (compiled.names.map v)) ∧
        List.Forall₂ (fun s c => ∃ x y, s.lhs.eval? v = some x ∧ s.rhs.eval? v = some y ∧
            (s.relation.Exactly x y ↔ c.Holds (compiled.names.map v)))
          program.constraints compiled.problem.constraints := by
  obtain ⟨o, form, forms, hc⟩ := isCompiled_of_compile h
  have hn : compiled.names.Nodup := hc.names ▸ nodup_order hd _
  refine ⟨o, hc.objectives, by rw [hc.objective], fun v => ⟨?_, ?_⟩⟩
  · rw [Expr.eval?_of_linearize hc.linearize, Objective.evaluate, hc.objective,
      LinearForm.dot_coefficients hn hc.known, hc.constant, sub_zero]
  · refine forall₂_trans hc.differences hc.constraints ?_
    rintro s f c ⟨hs, hrelation⟩ ⟨hknown, rfl⟩
    obtain ⟨x, y, hx, hy, hvalue⟩ := ConstraintStatement.eval?_of_difference hs
    refine ⟨x, y, hx, hy, ?_⟩
    rw [hrelation, LinearForm.holds_toConstraint hn hknown hvalue]

/-- `min (z - z + 2)(x + y) / 2 + 0w` under `2(x + y) - 3 <= x + 1` and `y * (1 + 1) >= -x`. Names
cancel out of a factor and out of a divisor, and terms stand on both sides. -/
def cancellingProgram : Program ℚ :=
  let name (s : String) : Expr ℚ := .var ⟨⟨0, 0⟩, s⟩
  let sum := Expr.paren (.binary (name "x") .add (name "y"))
  let two := Expr.paren (.binary (.binary (name "z") .sub (name "z")) .add (.number 2))
  ⟨[.objective ⟨⟨0, 0⟩, .minimize, none, .binary
      (.binary (.binary two .mul sum) .div two) .add (.binary (.number 0) .mul (name "w"))⟩,
    .constraint ⟨⟨0, 0⟩, .binary (.binary (.number 2) .mul sum) .sub (.number 3), .le,
      .binary (name "x") .add (.number 1)⟩,
    .constraint ⟨⟨0, 0⟩, .binary (name "y") .mul two, .ge, .neg (name "x")⟩]⟩

theorem compile_cancellingProgram : (declared ["y", "x"]).IsDistinct ∧
    ∃ compiled, (declared ["y", "x"]).compile cancellingProgram = .ok compiled ∧
      compiled.problem = ⟨⟨[1, 1], .minimize⟩, [⟨[2, 1], .le, 4⟩, ⟨[2, 1], .ge, 0⟩]⟩ ∧
      ∀ v : String → ℚ, List.Forall₂ (fun s c => ∃ x y, s.lhs.eval? v = some x ∧
          s.rhs.eval? v = some y ∧ (s.relation.Exactly x y ↔ c.Holds [v "y", v "x"]))
        cancellingProgram.constraints compiled.problem.constraints := by
  have hd : (declared ["y", "x"]).IsDistinct := by decide
  have h : (declared ["y", "x"]).compile cancellingProgram =
      .ok ⟨["y", "x"], none, ⟨⟨[1, 1], .minimize⟩, [⟨[2, 1], .le, 4⟩, ⟨[2, 1], .ge, 0⟩]⟩⟩ := by
    cbv
  obtain ⟨o, -, -, hv⟩ := compile_preserves_values hd h
  exact ⟨hd, _, h, rfl, fun v => (hv v).2⟩

end Declaration

end LinearProgram

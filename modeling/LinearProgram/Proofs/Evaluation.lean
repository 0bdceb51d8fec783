import LinearProgram.Proofs.Region
import LinearProgram.Language.Compile

/-! # The values of expressions

What an expression means, apart from any linear form: a number for every assignment of numbers to
names, unless it divides by zero. The linear form of an expression has that value, so an expression
that has a form divides by zero nowhere.
-/

namespace LinearProgram

/-- The result of an operation; there is none of a division by zero. -/
def Operator.result? : Operator → ℚ → ℚ → Option ℚ
  | .add, x, y => some (x + y)
  | .sub, x, y => some (x - y)
  | .mul, x, y => some (x * y)
  | .div, x, y => if y = 0 then none else some (x / y)

/-- The value of an expression, if it divides by zero nowhere. -/
def Expr.eval? (v : String → ℚ) : Expr ℚ → Option ℚ
  | number x => some x
  | var x => some (v x.name)
  | neg e => (e.eval? v).map (-·)
  | binary left op right => do
    let x ← left.eval? v
    let y ← right.eval? v
    op.result? x y
  | paren e => e.eval? v

variable {v : String → ℚ}

namespace Terms

/-- The sum of the products `coefficient · variable`. -/
def value (v : String → ℚ) (entries : List (String × ℚ)) : ℚ :=
  (entries.map fun e => e.2 * v e.1).sum

@[simp] theorem value_nil : value v [] = 0 := rfl

@[simp] theorem value_cons (e : String × ℚ) (entries : List (String × ℚ)) :
    value v (e :: entries) = e.2 * v e.1 + value v entries := by
  simp [value]

theorem value_alterEntries (name : String) (x : ℚ) (entries : List (String × ℚ)) :
    value v (alterEntries name (fun old => old.getD 0 + x) entries) =
      value v entries + x * v name := by
  fun_induction alterEntries name (fun old : Option ℚ => old.getD 0 + x) entries with
  | case1 => simp
  | case2 n c rest hlt =>
    simp only [value_cons, Option.getD_none, zero_add]
    ring
  | case3 n c rest _ hlt ih =>
    simp only [value_cons, ih]
    ring
  | case4 n c rest hlt hgt =>
    have hname : n = name := String.le_antisymm hlt hgt
    simp only [value_cons, hname, Option.getD_some]
    ring

theorem value_foldl_alter (x : ℚ) (entries : List (String × ℚ)) (ts : Terms ℚ) :
    value v (entries.foldl (fun ts e => ts.alter e.1 fun old => old.getD 0 + x * e.2) ts).entries =
      value v ts.entries + x * value v entries := by
  induction entries generalizing ts with
  | nil => simp
  | cons e entries ih =>
    rw [List.foldl_cons, ih, alter, value_alterEntries, value_cons]
    ring

theorem value_map_mul (x : ℚ) (ts : Terms ℚ) :
    value v (ts.map (· * x)).entries = value v ts.entries * x := by
  simp only [value, map, List.map_map, Function.comp_def, ← List.sum_map_mul_right, mul_right_comm]

theorem value_eq_zero {entries : List (String × ℚ)} (h : ∀ e ∈ entries, e.2 = 0) :
    value v entries = 0 := by
  refine List.sum_eq_zero ?_
  intro y hy
  obtain ⟨e, he, rfl⟩ := List.mem_map.mp hy
  rw [h e he, zero_mul]

end Terms

namespace LinearForm

/-- The value of a form once its variables have values. -/
def value (v : String → ℚ) (f : LinearForm ℚ) : ℚ := Terms.value v f.terms.entries + f.constant

variable {f g : LinearForm ℚ}

theorem value_ofConstant (x : ℚ) : (ofConstant x).value v = x := zero_add x

theorem value_ofVariable (name : String) : (ofVariable name : LinearForm ℚ).value v = v name := by
  simp [value, ofVariable, Terms.single]

theorem value_addScaled (f g : LinearForm ℚ) (x : ℚ) :
    (f.addScaled g x).value v = f.value v + x * g.value v := by
  simp only [value, addScaled, Terms.value_foldl_alter]
  ring

theorem value_scale (f : LinearForm ℚ) (x : ℚ) : (f.scale x).value v = f.value v * x := by
  simp only [value, scale, Terms.value_map_mul]
  ring

theorem value_of_isConstant (h : f.isConstant = true) : f.value v = f.constant := by
  have hterms : ∀ e ∈ f.terms.entries, e.2 = 0 := by
    simpa only [isConstant, List.all_eq_true, beq_iff_eq] using h
  rw [value, Terms.value_eq_zero hterms, zero_add]

theorem value_multiply {form : LinearForm ℚ} (h : f.multiply g = .ok form) :
    form.value v = f.value v * g.value v := by
  rw [multiply] at h
  split at h
  · next hf =>
    obtain rfl := Except.ok.inj h
    rw [value_scale, value_of_isConstant hf, mul_comm]
  · split at h
    · next hg =>
      obtain rfl := Except.ok.inj h
      rw [value_scale, value_of_isConstant hg]
    · cases h

theorem value_divide {form : LinearForm ℚ} (h : f.divide g = .ok form) :
    g.value v ≠ 0 ∧ form.value v = f.value v / g.value v := by
  rw [divide] at h
  split at h
  · cases h
  · next hg =>
    split at h
    · cases h
    · next hzero =>
      obtain rfl := Except.ok.inj h
      have hconstant : g.isConstant = true := by simpa using hg
      rw [value_of_isConstant hconstant]
      constructor
      · simpa using hzero
      · rw [value_scale, mul_one_div]

/-- The form that an operation leads to has the operation's result as its value. -/
theorem result?_of_operate {op : Operator} {form : LinearForm ℚ} (h : f.operate op g = .ok form) :
    op.result? (f.value v) (g.value v) = some (form.value v) := by
  cases op with
  | add =>
    obtain rfl := Except.ok.inj h
    rw [Operator.result?, value_addScaled, one_mul]
  | sub =>
    obtain rfl := Except.ok.inj h
    rw [Operator.result?, value_addScaled, neg_one_mul, sub_eq_add_neg]
  | mul => rw [Operator.result?, value_multiply h]
  | div =>
    obtain ⟨hne, hvalue⟩ := value_divide h
    rw [Operator.result?, if_neg hne, hvalue]

end LinearForm

theorem Expr.eval?_of_linearize {e : Expr ℚ} {form : LinearForm ℚ} (h : e.linearize = .ok form) :
    e.eval? v = some (form.value v) := by
  induction e generalizing form with
  | number x =>
    obtain rfl := Except.ok.inj h
    rw [eval?, LinearForm.value_ofConstant]
  | var x =>
    obtain rfl := Except.ok.inj h
    rw [eval?, LinearForm.value_ofVariable]
  | neg e ih =>
    obtain ⟨f, hf, h⟩ := bind_eq_ok.mp h
    obtain rfl := Except.ok.inj h
    rw [eval?, ih hf, Option.map_some, LinearForm.value_scale, mul_neg_one]
  | binary left op right ihl ihr =>
    obtain ⟨f, hf, h⟩ := bind_eq_ok.mp h
    obtain ⟨g, hg, h⟩ := bind_eq_ok.mp h
    rw [eval?, ihl hf, ihr hg]
    exact LinearForm.result?_of_operate h
  | paren e ih => exact ih h

/-- The sides of a statement have values, and the form is by how much the left one is larger. -/
theorem ConstraintStatement.eval?_of_difference {s : ConstraintStatement ℚ} {form : LinearForm ℚ}
    (h : s.difference = .ok form) :
    ∃ x y, s.lhs.eval? v = some x ∧ s.rhs.eval? v = some y ∧ form.value v = x - y := by
  obtain ⟨f, hf, h⟩ := bind_eq_ok.mp h
  obtain ⟨g, hg, h⟩ := bind_eq_ok.mp h
  obtain rfl := Except.ok.inj h
  refine ⟨f.value v, g.value v, Expr.eval?_of_linearize hf, Expr.eval?_of_linearize hg, ?_⟩
  rw [LinearForm.value_addScaled, neg_one_mul, sub_eq_add_neg]

end LinearProgram

import LinearProgram.Language.Program
import LinearProgram.Problem.Text

/-! # Linear forms

`Σ coefficient · variable + constant`. The terms stand in the order of their names, each name once.
-/

namespace LinearProgram

/-- Coefficients by name. -/
structure Terms (α : Type) where
  entries : List (String × α)
  sorted : entries.Pairwise fun a b => a.1 < b.1

namespace Terms

variable {α β : Type}

/-- Replaces the value of a name, or adds one in its place. -/
def alterEntries (name : String) (f : Option α → α) : List (String × α) → List (String × α)
  | [] => [(name, f none)]
  | (n, x) :: rest =>
    if name < n then (name, f none) :: (n, x) :: rest
    else if n < name then (n, x) :: alterEntries name f rest
    else (n, f (some x)) :: rest

theorem mem_alterEntries {name : String} {f : Option α → α} {entries : List (String × α)}
    {e : String × α} (h : e ∈ alterEntries name f entries) :
    e.1 = name ∨ ∃ e' ∈ entries, e'.1 = e.1 := by
  fun_induction alterEntries name f entries with
  | case1 => simp_all
  | case2 n x rest _ =>
    rcases List.mem_cons.1 h with rfl | h
    · exact .inl rfl
    · exact .inr ⟨e, h, rfl⟩
  | case3 n x rest _ _ ih =>
    rcases List.mem_cons.1 h with rfl | h
    · exact .inr ⟨_, List.mem_cons_self, rfl⟩
    · rcases ih h with h | ⟨e', h, he⟩
      · exact .inl h
      · exact .inr ⟨e', List.mem_cons_of_mem _ h, he⟩
  | case4 n x rest _ _ =>
    rcases List.mem_cons.1 h with rfl | h
    · exact .inr ⟨_, List.mem_cons_self, rfl⟩
    · exact .inr ⟨e, List.mem_cons_of_mem _ h, rfl⟩

theorem pairwise_alterEntries {name : String} {f : Option α → α} {entries : List (String × α)}
    (h : entries.Pairwise fun a b => a.1 < b.1) :
    (alterEntries name f entries).Pairwise fun a b => a.1 < b.1 := by
  fun_induction alterEntries name f entries with
  | case1 => simp
  | case2 n x rest hlt =>
    refine List.pairwise_cons.2 ⟨fun e he => ?_, h⟩
    rcases List.mem_cons.1 he with rfl | he
    · exact hlt
    · exact String.lt_trans hlt ((List.pairwise_cons.1 h).1 e he)
  | case3 n x rest _ hlt ih =>
    obtain ⟨hn, hrest⟩ := List.pairwise_cons.1 h
    refine List.pairwise_cons.2 ⟨fun e he => ?_, ih hrest⟩
    rcases mem_alterEntries he with he | ⟨e', he', he⟩
    · exact he ▸ hlt
    · exact he ▸ hn e' he'
  | case4 n x rest _ _ =>
    obtain ⟨hn, hrest⟩ := List.pairwise_cons.1 h
    exact List.pairwise_cons.2 ⟨hn, hrest⟩

def empty : Terms α := ⟨[], .nil⟩

def single (name : String) (x : α) : Terms α := ⟨[(name, x)], by simp⟩

def alter (name : String) (f : Option α → α) (ts : Terms α) : Terms α :=
  ⟨alterEntries name f ts.entries, pairwise_alterEntries ts.sorted⟩

/-- Collects entries in any order; the last entry of a name counts. -/
def ofList (entries : List (String × α)) : Terms α :=
  entries.foldl (fun ts (name, x) => ts.alter name fun _ => x) empty

def map (f : α → α) (ts : Terms α) : Terms α :=
  ⟨ts.entries.map fun (name, x) => (name, f x), by
    rw [List.pairwise_map]
    exact ts.sorted⟩

def get? (ts : Terms α) (name : String) : Option α := ts.entries.lookup name

def names (ts : Terms α) : List String := ts.entries.map (·.1)

end Terms

structure LinearForm (α : Type) where
  terms : Terms α
  constant : α

namespace LinearForm

variable {α : Type} [Scalar α]

def ofConstant (x : α) : LinearForm α := ⟨.empty, x⟩

def ofVariable (name : String) : LinearForm α := ⟨.single name 1, 0⟩

/-- The names of its terms whose coefficients are not zero. -/
def support (f : LinearForm α) : List String :=
  (f.terms.entries.filter fun (_, c) => !(c == 0)).map (·.1)

def isConstant (f : LinearForm α) : Bool := f.terms.entries.all fun (_, c) => c == 0

def coefficient (f : LinearForm α) (name : String) : α := (f.terms.get? name).getD 0

/-- The form `f + factor · g`. -/
def addScaled (f g : LinearForm α) (factor : α) : LinearForm α :=
  ⟨g.terms.entries.foldl
      (fun terms (name, c) => terms.alter name fun old => old.getD 0 + factor * c) f.terms,
    f.constant + factor * g.constant⟩

def scale (f : LinearForm α) (factor : α) : LinearForm α :=
  ⟨f.terms.map (· * factor), f.constant * factor⟩

/-- The terms that are not zero and the constant, joined by plus signs. -/
def text (f : LinearForm α) : String :=
  let terms := (f.terms.entries.filter fun (_, c) => !(c == 0)).map fun (name, c) =>
    Scalar.compact c ++ name
  let constant := if !(f.constant == 0) || terms.isEmpty then [Scalar.compact f.constant] else []
  " + ".intercalate (terms ++ constant)

end LinearForm

end LinearProgram

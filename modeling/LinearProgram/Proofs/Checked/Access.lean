import LinearProgram.Number.Scalar
import Mathlib.Algebra.Order.Field.Rat
import Mathlib.Data.List.Forall2

/-! # Checked access

Reading and writing lists by position, and division, where a position that is out of range and a
divisor that is zero are faults. A loop over positions has none if no step of it has one.
-/

namespace LinearProgram

/-- What stops a program that indexes and copies lists and divides. -/
inductive Fault where
  | outOfRange (index length : ℕ)
  /-- A list is copied to a place of another length. -/
  | lengthMismatch (expected found : ℕ)
  | divisionByZero
  deriving DecidableEq, Repr

namespace Checked

variable {α β γ : Type} [Scalar α]

def read (xs : List β) (i : ℕ) : Except Fault β :=
  match xs[i]? with
  | some x => .ok x
  | none => .error (.outOfRange i xs.length)

def write (xs : List β) (i : ℕ) (x : β) : Except Fault (List β) :=
  if i < xs.length then .ok (xs.set i x) else .error (.outOfRange i xs.length)

/-- The first `n` entries. -/
def front (xs : List β) (n : ℕ) : Except Fault (List β) :=
  if n ≤ xs.length then .ok (xs.take n) else .error (.outOfRange n xs.length)

/-- What stands from position `n` on. -/
def back (xs : List β) (n : ℕ) : Except Fault (List β) :=
  if n ≤ xs.length then .ok (xs.drop n) else .error (.outOfRange n xs.length)

/-- Copies a list to the first `n` entries. -/
def overwrite (source : List β) (n : ℕ) (xs : List β) : Except Fault (List β) := do
  let place ← front xs n
  if source.length = place.length then .ok (source ++ xs.drop n)
  else .error (.lengthMismatch place.length source.length)

/-- The position of the last entry. -/
def last (xs : List β) : Except Fault ℕ :=
  if xs.length = 0 then .error (.outOfRange 0 0) else .ok (xs.length - 1)

def divide (x y : α) : Except Fault α :=
  if y == 0 then .error .divisionByZero else .ok (x / y)

/-- Replaces the first `n` entries one after the other. -/
def update (f : ℕ → β → Except Fault β) (n : ℕ) (xs : List β) : Except Fault (List β) :=
  (List.range n).foldlM (fun xs i => do write xs i (← f i (← read xs i))) xs

/-- The entries that pass a check. -/
def select (f : β → Except Fault Bool) : List β → Except Fault (List β)
  | [] => .ok []
  | x :: xs => do
    let keep ← f x
    let rest ← select f xs
    .ok (if keep then x :: rest else rest)

@[simp] theorem ok_bind (x : β) (f : β → Except Fault γ) : (Except.ok x >>= f) = f x := rfl

theorem bind_of_eq {x : Except Fault β} {y : β} (h : x = .ok y) (f : β → Except Fault γ) :
    x >>= f = f y := by
  rw [h, ok_bind]

section Access

variable {xs : List β} {i n : ℕ} {x : β}

theorem read_eq_ok (h : xs[i]? = some x) : read xs i = .ok x := by
  unfold read
  rw [h]

theorem write_eq_ok (h : i < xs.length) (x : β) : write xs i x = .ok (xs.set i x) := if_pos h

theorem write_append_left {ys zs : List β} (h : write xs i x = .ok zs) :
    write (xs ++ ys) i x = .ok (zs ++ ys) := by
  rw [write] at h
  split at h
  · next hi =>
    obtain rfl := Except.ok.inj h
    rw [write_eq_ok (by rw [List.length_append]; omega), List.set_append_left _ _ hi]
  · cases h

theorem write_append_right {ys zs : List β} (hi : n = xs.length + i) (h : write ys i x = .ok zs) :
    write (xs ++ ys) n x = .ok (xs ++ zs) := by
  subst hi
  rw [write] at h
  split at h
  · next hi =>
    obtain rfl := Except.ok.inj h
    rw [write_eq_ok (by rw [List.length_append]; omega),
      List.set_append_right _ _ (Nat.le_add_right ..), Nat.add_sub_cancel_left]
  · cases h

theorem front_eq_ok (h : n ≤ xs.length) : front xs n = .ok (xs.take n) := if_pos h

theorem back_eq_ok (h : n ≤ xs.length) : back xs n = .ok (xs.drop n) := if_pos h

theorem overwrite_eq_ok {source : List β} (h : n ≤ xs.length) (hs : source.length = n) :
    overwrite source n xs = .ok (source ++ xs.drop n) := by
  rw [overwrite, front_eq_ok h, ok_bind, if_pos (by rw [hs, List.length_take_of_le h])]

theorem last_eq_ok (h : xs.length = n + 1) : last xs = .ok n := by
  unfold last
  rw [h]
  rfl

theorem divide_eq_ok {x y : ℚ} (h : y ≠ 0) : divide x y = .ok (x / y) := by
  unfold divide
  rw [if_neg (beq_iff_eq.not.mpr h)]

end Access

section Scans

variable {xs : List β}

theorem mapM_eq_ok_of_forall₂ {f : β → Except Fault γ} {ys : List γ}
    (h : List.Forall₂ (fun x y => f x = .ok y) xs ys) : xs.mapM f = .ok ys := by
  induction h with
  | nil => rfl
  | cons hx _ ih =>
    rw [List.mapM_cons, hx, ih]
    rfl

theorem mapM_eq_ok {f : β → Except Fault γ} {g : β → γ} (h : ∀ x ∈ xs, f x = .ok (g x)) :
    xs.mapM f = .ok (xs.map g) :=
  mapM_eq_ok_of_forall₂ (List.forall₂_map_right_iff.mpr (List.forall₂_same.mpr h))

theorem mapM_zipIdx_eq_ok (xs : List β) {f : ℕ → Except Fault γ} {g : β → ℕ → γ}
    (h : ∀ i x, xs[i]? = some x → f i = .ok (g x i)) :
    (List.range xs.length).mapM f = .ok (xs.zipIdx.map fun e => g e.1 e.2) := by
  refine mapM_eq_ok_of_forall₂ (List.forall₂_iff_get.mpr ⟨by simp, fun i hi hi' => ?_⟩)
  have hlt : i < xs.length := by simpa using hi
  simpa using h i xs[i] (List.getElem?_eq_getElem hlt)

theorem mapM_range_eq_ok {f : ℕ → Except Fault γ} {g : β → γ}
    (h : ∀ i x, xs[i]? = some x → f i = .ok (g x)) :
    (List.range xs.length).mapM f = .ok (xs.map g) := by
  have hfst : (xs.zipIdx.map fun e => g e.1) = xs.map g := by
    rw [← List.zipIdx_map_fst 0 xs, List.map_map, List.zipIdx_map_fst]
    rfl
  rw [mapM_zipIdx_eq_ok xs (g := fun x _ => g x) h, hfst]

theorem select_eq_ok {f : β → Except Fault Bool} {g : β → Bool} (h : ∀ x ∈ xs, f x = .ok (g x)) :
    select f xs = .ok (xs.filter g) := by
  induction xs with
  | nil => rfl
  | cons x xs ih =>
    obtain ⟨hx, hxs⟩ := List.forall_mem_cons.mp h
    rw [select, hx, ih hxs, List.filter_cons]
    rfl

theorem findM?_eq_ok {f : β → Except Fault Bool} {g : β → Bool} (h : ∀ x ∈ xs, f x = .ok (g x)) :
    xs.findM? f = .ok (xs.find? g) := by
  induction xs with
  | nil => rfl
  | cons x xs ih =>
    obtain ⟨hx, hxs⟩ := List.forall_mem_cons.mp h
    rw [List.findM?, hx, List.find?_cons, ih hxs]
    cases g x <;> rfl

theorem anyM_eq_ok {f : β → Except Fault Bool} {g : β → Bool} (h : ∀ x ∈ xs, f x = .ok (g x)) :
    xs.anyM f = .ok (xs.any g) := by
  induction xs with
  | nil => rfl
  | cons x xs ih =>
    obtain ⟨hx, hxs⟩ := List.forall_mem_cons.mp h
    rw [List.anyM, hx, List.any_cons, ih hxs]
    cases g x <;> rfl

theorem any_range (xs : List β) (g : β → Bool) :
    ((List.range xs.length).any fun i => (xs[i]?).any g) = xs.any g := by
  rw [Bool.eq_iff_iff]
  simp only [List.any_eq_true, List.mem_range, Option.any_eq_true]
  constructor
  · rintro ⟨i, -, x, hx, hg⟩
    exact ⟨x, List.mem_of_getElem? hx, hg⟩
  · rintro ⟨x, hmem, hg⟩
    obtain ⟨i, hi⟩ := List.mem_iff_getElem?.mp hmem
    exact ⟨i, (List.getElem?_eq_some_iff.mp hi).1, x, hi, hg⟩

theorem head?_filter_range (xs : List β) (g : β → Bool) :
    ((List.range xs.length).filter fun i => (xs[i]?).any g).head? = xs.findIdx? g := by
  rw [List.head?_filter]
  induction xs with
  | nil => rfl
  | cons x xs ih =>
    have hshift : (fun i => ((x :: xs)[i]?).any g) ∘ Nat.succ = fun i => (xs[i]?).any g := rfl
    rw [List.length_cons, List.range_succ_eq_map, List.find?_cons, List.find?_map,
      List.findIdx?_cons, ← ih, hshift]
    cases hx : g x <;> simp [hx]

/-- The first of the positions that pass a check is that of the first entry that does. -/
theorem find?_of_filter_range (xs : List β) (g : β → Bool) :
    ((List.range xs.length).filter fun i => (xs[i]?).any g) = [] ∧ xs.find? g = none ∨
      ∃ i rest x, ((List.range xs.length).filter fun i => (xs[i]?).any g) = i :: rest ∧
        xs[i]? = some x ∧ xs.find? g = some x := by
  rw [List.find?_eq_bind_findIdx?_getElem?, ← head?_filter_range]
  cases hlist : (List.range xs.length).filter fun i => (xs[i]?).any g with
  | nil => exact Or.inl ⟨rfl, rfl⟩
  | cons i rest =>
    have hmem : i ∈ (List.range xs.length).filter fun i => (xs[i]?).any g :=
      hlist ▸ List.mem_cons_self
    have hi : i < xs.length := List.mem_range.mp (List.mem_filter.mp hmem).1
    have hx : xs[i]? = some xs[i] := List.getElem?_eq_getElem hi
    exact Or.inr ⟨i, rest, xs[i], rfl, hx, hx⟩

end Scans

section Loops

variable {xs ys : List β}

/-- A loop over positions goes through the states that its steps lead to. -/
theorem loop_eq_ok {σ : Type} {f : σ → ℕ → Except Fault σ} (states : ℕ → σ) {n : ℕ}
    (h : ∀ i < n, f (states i) i = .ok (states (i + 1))) :
    (List.range n).foldlM f (states 0) = .ok (states n) := by
  induction n with
  | zero => rfl
  | succ n ih =>
    rw [List.range_succ, List.foldlM_append, ih fun i hi => h i (Nat.lt_succ_of_lt hi)]
    simp only [List.foldlM_cons, List.foldlM_nil, ok_bind, h n (Nat.lt_succ_self n)]
    rfl

/-- The entries behind the first `n` stay. -/
theorem update_eq_ok {f : ℕ → β → Except Fault β} {n : ℕ} (hys : ys.length = n)
    (hxs : n ≤ xs.length) (h : ∀ i x y, xs[i]? = some x → ys[i]? = some y → f i x = .ok y) :
    update f n xs = .ok (ys ++ xs.drop n) := by
  -- Behind `i` steps the first `i` entries are those of `ys`.
  have hstep : ∀ i < n,
      (do write (ys.take i ++ xs.drop i) i (← f i (← read (ys.take i ++ xs.drop i) i))) =
        .ok (ys.take (i + 1) ++ xs.drop (i + 1)) := by
    intro i hi
    have htake : (ys.take i).length = i := List.length_take_of_le (by omega)
    have hdrop : xs.drop i = xs[i] :: xs.drop (i + 1) := List.drop_eq_getElem_cons (by omega)
    have hread : (ys.take i ++ xs.drop i)[i]? = some xs[i] := by
      rw [List.getElem?_append_right htake.le, htake, Nat.sub_self, hdrop]
      rfl
    have hwrite : i < (ys.take i ++ xs.drop i).length := (List.getElem?_eq_some_iff.mp hread).1
    rw [read_eq_ok hread, ok_bind,
      h i xs[i] ys[i] (List.getElem?_eq_getElem _) (List.getElem?_eq_getElem _), ok_bind,
      write_eq_ok hwrite, List.set_append_right _ _ htake.le, htake, Nat.sub_self, hdrop,
      List.set_cons_zero, List.take_succ_eq_append_getElem (hys.symm ▸ hi), List.append_assoc]
    rfl
  have hloop := loop_eq_ok (f := fun xs i => do write xs i (← f i (← read xs i)))
    (fun i => ys.take i ++ xs.drop i) hstep
  rwa [← hys, List.take_length, hys] at hloop

theorem update_all_eq_ok {f : ℕ → β → Except Fault β} {n : ℕ} (hys : ys.length = n)
    (hxs : xs.length = n) (h : ∀ i x y, xs[i]? = some x → ys[i]? = some y → f i x = .ok y) :
    update f n xs = .ok ys := by
  rw [update_eq_ok hys hxs.ge h, ← hxs, List.drop_length, List.append_nil]

theorem update_zipWith_eq_ok {f : β → γ → β} {zs : List γ} {n : ℕ} (hxs : xs.length = n)
    (hzs : zs.length = n) :
    update (fun j x => do .ok (f x (← read zs j))) n xs = .ok (List.zipWith f xs zs) := by
  refine update_all_eq_ok (by rw [List.length_zipWith, hxs, hzs, min_self]) hxs
    fun j x y hx hy => ?_
  obtain ⟨x', z, hx', hz, rfl⟩ := List.getElem?_zipWith_eq_some.mp hy
  obtain rfl : x = x' := Option.some.inj (hx.symm.trans hx')
  rw [read_eq_ok hz, ok_bind]

end Loops

end Checked

end LinearProgram

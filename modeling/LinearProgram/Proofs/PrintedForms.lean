import LinearProgram.Proofs.Compilation
import LinearProgram.Proofs.PrintedTokens

/-! # The forms of printed expressions

The words of a printed expression are a sum. Each term adds its coefficient to a name that has none
so far, and nothing is rounded on the way, so the form of the expression lists the coefficients that
were printed.
-/

namespace LinearProgram

open Double Grammar

namespace Terms

variable {α : Type} {name : String} {f : Option α → α}

theorem lookup_cons_eq (m n : String) (x : α) (rest : List (String × α)) :
    ((m, x) :: rest).lookup n = if n = m then some x else rest.lookup n := by
  by_cases h : n = m
  · simp [h]
  · simp [List.lookup_cons, beq_false_of_ne h, h]

theorem lookup_alterEntries {entries : List (String × α)}
    (h : entries.Pairwise fun a b => a.1 < b.1) (n : String) :
    (alterEntries name f entries).lookup n =
      if n = name then some (f (entries.lookup name)) else entries.lookup n := by
  fun_induction alterEntries name f entries with
  | case1 => rw [lookup_cons_eq]
             rfl
  | case2 n' x rest hlt =>
    obtain ⟨hrest, -⟩ := List.pairwise_cons.mp h
    have hnone : ((n', x) :: rest).lookup name = none :=
      lookup_eq_none (List.forall_mem_cons.mpr ⟨hlt, fun e he => String.lt_trans hlt (hrest e he)⟩)
    rw [hnone, lookup_cons_eq]
  | case3 n' x rest _ hlt ih =>
    obtain ⟨-, hrest⟩ := List.pairwise_cons.mp h
    have hne : name ≠ n' := (String.ne_of_lt hlt).symm
    rw [lookup_cons_eq, lookup_cons_eq, lookup_cons_eq, ih hrest, if_neg hne]
    by_cases hn : n = n'
    · rw [if_pos hn, if_neg (hn ▸ hne.symm), if_pos hn]
    · rw [if_neg hn, if_neg hn]
  | case4 n' x rest hge hle =>
    obtain rfl : n' = name := String.le_antisymm hge hle
    rw [lookup_cons_eq, lookup_cons_eq, lookup_cons_eq, if_pos rfl]
    split <;> rfl

theorem get?_alter (ts : Terms α) (n : String) : (ts.alter name f).get? n =
    if n = name then some (f (ts.get? name)) else ts.get? n :=
  lookup_alterEntries ts.sorted n

end Terms

namespace Double

theorem one_eq : (1 : Float) = one := by decide +kernel

theorem hasValue_neg_one : HasValue (-1) (-1) := one_eq ▸ hasValue_one.neg

end Double

namespace LinearForm

/-- The form has these coefficients and no others, and this constant. No value is rounded. -/
structure Lists (f : LinearForm Float) (terms : List (Float × String)) (constant : ℚ) : Prop where
  constant : HasValue f.constant constant
  coefficient : ∀ t ∈ terms, ∃ c, f.terms.get? t.2 = some c ∧ HasValue c (Double.value t.1)
  names : ∀ n, n ∉ terms.map (·.2) → f.terms.get? n = none

variable {a s x : Float} {name : String} {terms : List (Float × String)} {f g : LinearForm Float}
  {q k : ℚ}

theorem lists_scale (hx : HasValue x (Double.value a)) :
    ((ofVariable name).scale x).Lists [(a, name)] 0 := by
  have hconstant := hasValue_zero.mul hx (zero_mul (Double.value a) ▸ hasValue_zero)
  have hproduct := hasValue_one.mul hx (one_mul (Double.value a) ▸ hx)
  rw [zero_mul] at hconstant
  rw [one_mul, ← one_eq] at hproduct
  refine ⟨hconstant, ?_, ?_⟩
  · rw [List.forall_mem_singleton]
    exact ⟨1 * x, (Terms.lookup_cons_eq ..).trans (if_pos rfl), hproduct⟩
  · intro n hn
    rw [List.map_singleton, List.mem_singleton] at hn
    exact (Terms.lookup_cons_eq ..).trans (if_neg hn)

/-- A term in a name that the form does not have is listed behind the others. -/
theorem Lists.addScaled (h : f.Lists terms 0) (hname : name ∉ terms.map (·.2))
    (hx : HasValue x q) (hs : HasValue s k) (ha : HasValue a (k * q)) :
    (f.addScaled ((ofVariable name).scale x) s).Lists (terms ++ [(a, name)]) 0 := by
  have hone := hasValue_one.mul hx (one_mul q ▸ hx)
  rw [one_mul, ← one_eq] at hone
  have hproduct := hs.mul hone ha
  have hsum := hasValue_zero.add hproduct (zero_add (k * q) ▸ ha)
  rw [zero_add] at hsum
  have hzero := hasValue_zero.mul hx (zero_mul q ▸ hasValue_zero)
  rw [zero_mul] at hzero
  have hscaled := hs.mul hzero (mul_zero k ▸ hasValue_zero)
  rw [mul_zero] at hscaled
  have hconstant := h.constant.add hscaled ((add_zero (0 : ℚ)).symm ▸ hasValue_zero)
  rw [add_zero] at hconstant
  have hget : ∀ n, (f.addScaled ((ofVariable name).scale x) s).terms.get? n =
      if n = name then some (0 + s * (1 * x)) else f.terms.get? n := by
    intro n
    have hget := @Terms.get?_alter _ name (fun old => old.getD 0 + s * (1 * x)) f.terms n
    rw [h.names name hname] at hget
    exact hget
  refine ⟨hconstant, ?_, ?_⟩
  · rw [List.forall_mem_append, List.forall_mem_singleton]
    constructor
    · intro t ht
      have hne : t.2 ≠ name := fun heq => hname (heq ▸ List.mem_map_of_mem ht)
      rw [hget, if_neg hne]
      exact h.coefficient t ht
    · rw [hget, if_pos rfl, ha.2]
      exact ⟨_, rfl, hsum⟩
  · intro n hn
    rw [List.map_append, List.map_singleton, List.mem_append, List.mem_singleton, not_or] at hn
    rw [hget, if_neg hn.2]
    exact h.names n hn.1

/-- A constant is moved to the other side without rounding. -/
theorem Lists.sub_constant (h : f.Lists terms 0) (hx : HasValue x q) :
    (f.addScaled ⟨.empty, x⟩ (-1)).Lists terms (-q) := by
  have hneg : HasValue (-x) (-1 * q) := by
    rw [neg_one_mul]
    exact hx.neg
  have hproduct := hasValue_neg_one.mul hx hneg
  have hsum := h.constant.add hproduct (zero_add (-1 * q) ▸ hneg)
  rw [zero_add, neg_one_mul] at hsum
  exact ⟨hsum, h.coefficient, h.names⟩

end LinearForm

section Spelling

open Lexer

/-- The kind and the text of a token. -/
def word (t : Token) : TokenKind × String := (t.kind, t.text)

/-- A coefficient whose magnitude is written as it is. -/
def IsWritten (a : Float) : Prop := a.isFinite = true ∧ Scalar.readsBack a.abs = true

variable {a : Float} {name : String} {ts us : List Token} {terms rest : List (Float × String)}

theorem hasValue_numeral_compact (h : IsWritten a) :
    HasValue (numeral (Scalar.compact a.abs)) |Double.value a| := by
  obtain ⟨n, hn, hvalue⟩ := Scalar.exists_numeral_abs h.1 h.2
  rwa [← hn, String.ofList_toList] at hvalue

/-- The words of a number behind a sign, if it has one. -/
def signedWords (negative : Bool) (text : String) : List (TokenKind × String) :=
  if negative then [(.minus, "-"), (.number, text)] else [(.number, text)]

/-- A number behind a sign is a constant. -/
theorem spells_signed {negative : Bool} {text : String} {q : ℚ} (h : HasValue (numeral text) q)
    (hts : ts.map word = signedWords negative text) : ∃ (e : Expr Float) (x : Float),
      Spells .signed ts e ∧ e.linearize = .ok (.ofConstant x) ∧
        HasValue x (if negative then -q else q) := by
  have hnumber : ∀ {t : Token}, word t = (.number, text) →
      Spells .signed [t] (.number (numeral text : Float)) := by
    intro t ht
    obtain ⟨hkind, rfl⟩ := Prod.mk.inj ht
    exact .unsigned (.number hkind)
  cases negative with
  | false =>
    obtain ⟨t, rfl, ht⟩ := List.map_eq_singleton_iff.mp hts
    exact ⟨_, _, hnumber ht, rfl, h⟩
  | true =>
    obtain ⟨minus, us, rfl, hminus, hus⟩ := List.map_eq_cons_iff.mp hts
    obtain ⟨t, rfl, ht⟩ := List.map_eq_singleton_iff.mp hus
    obtain ⟨hkind, -⟩ := Prod.mk.inj hminus
    have hneg : HasValue (-numeral text) (q * -1) := by
      rw [mul_neg_one]
      exact h.neg
    have hproduct := h.mul hasValue_neg_one hneg
    rw [mul_neg_one] at hproduct
    exact ⟨_, _, .minus hkind (hnumber ht), rfl, hproduct⟩

/-- A constant and the name behind it are a product. -/
theorem spells_product {e : Expr Float} {x : Float} {ident : Token} (h : Spells .signed ts e)
    (hx : e.linearize = .ok (.ofConstant x)) (hident : word ident = (.ident, name)) :
    ∃ e' : Expr Float, Spells .product (ts ++ [ident]) e' ∧
      e'.linearize = .ok ((LinearForm.ofVariable name).scale x) := by
  obtain ⟨hkind, rfl⟩ := Prod.mk.inj hident
  refine ⟨.binary e .mul (.var ⟨ident.span, ident.text⟩),
    .beside (.factor h) (Or.inl hkind) (.name hkind), ?_⟩
  rw [Expr.linearize, hx]
  rfl

theorem neg_iff (h : IsWritten a) : a < 0 ↔ Double.value a < 0 := (hasValue_value h.1).neg_iff

/-- The first term is a product, with the sign of its coefficient. -/
theorem spells_first (h : IsWritten a) (hts : ts.map word = signWords true a ++
      [(.number, Scalar.compact a.abs), (.ident, name)]) :
    ∃ (e : Expr Float) (f : LinearForm Float), Spells .product ts e ∧ e.linearize = .ok f ∧
      f.Lists [(a, name)] 0 := by
  have hsigned : signWords true a ++ [(.number, Scalar.compact a.abs), (.ident, name)] =
      signedWords (decide (a < 0)) (Scalar.compact a.abs) ++ [(.ident, name)] := by
    by_cases hneg : a < 0 <;> simp [signWords, signedWords, hneg]
  rw [hsigned] at hts
  obtain ⟨us, vs, rfl, hus, hvs⟩ := List.map_eq_append_iff.mp hts
  obtain ⟨ident, rfl, hident⟩ := List.map_eq_singleton_iff.mp hvs
  obtain ⟨e, x, hspells, hlinear, hvalue⟩ := spells_signed (hasValue_numeral_compact h) hus
  obtain ⟨e', hspells', hlinear'⟩ := spells_product hspells hlinear hident
  have hsame : (if decide (a < 0) = true then -|Double.value a| else |Double.value a|) =
      Double.value a := by
    by_cases hneg : a < 0
    · rw [if_pos (decide_eq_true hneg), abs_of_neg ((neg_iff h).mp hneg), neg_neg]
    · rw [if_neg fun htrue => hneg (of_decide_eq_true htrue),
        abs_of_nonneg (not_lt.mp fun hlt => hneg ((neg_iff h).mpr hlt))]
  rw [hsame] at hvalue
  exact ⟨e', _, hspells', hlinear', LinearForm.lists_scale hvalue⟩

/-- A further term is added or subtracted. -/
theorem spells_next {e : Expr Float} {f : LinearForm Float} (h : IsWritten a)
    (hspells : Spells .sum ts e) (hlinear : e.linearize = .ok f) (hf : f.Lists terms 0)
    (hname : name ∉ terms.map (·.2))
    (hus : us.map word = signWords false a ++ [(.number, Scalar.compact a.abs), (.ident, name)]) :
    ∃ (e' : Expr Float) (g : LinearForm Float), Spells .sum (ts ++ us) e' ∧
      e'.linearize = .ok g ∧ g.Lists (terms ++ [(a, name)]) 0 := by
  obtain ⟨vs, ws, rfl, hvs, hws⟩ := List.map_eq_append_iff.mp hus
  obtain ⟨number, is, rfl, hnumber, his⟩ := List.map_eq_cons_iff.mp hws
  obtain ⟨ident, rfl, hident⟩ := List.map_eq_singleton_iff.mp his
  obtain ⟨r, x, hr, hrlinear, hx⟩ := @spells_signed [number] false _ _
    (hasValue_numeral_compact h) (congrArg (fun w => [w]) hnumber)
  obtain ⟨r', hr', hrlinear'⟩ := spells_product hr hrlinear hident
  by_cases hneg : a < 0
  · rw [signWords, if_pos hneg] at hvs
    obtain ⟨minus, rfl, hminus⟩ := List.map_eq_singleton_iff.mp hvs
    obtain ⟨hkind, -⟩ := Prod.mk.inj hminus
    have ha : HasValue a (-1 * |Double.value a|) := by
      rw [abs_of_neg ((neg_iff h).mp hneg), neg_one_mul, neg_neg]
      exact hasValue_value h.1
    refine ⟨_, _, .sub hspells hkind hr', ?_, hf.addScaled hname hx hasValue_neg_one ha⟩
    rw [Expr.linearize, hlinear, hrlinear']
    rfl
  · rw [signWords, if_neg hneg] at hvs
    obtain ⟨plus, rfl, hplus⟩ := List.map_eq_singleton_iff.mp hvs
    obtain ⟨hkind, -⟩ := Prod.mk.inj hplus
    have ha : HasValue a (1 * |Double.value a|) := by
      rw [abs_of_nonneg (not_lt.mp fun hlt => hneg ((neg_iff h).mpr hlt)), one_mul]
      exact hasValue_value h.1
    refine ⟨_, _, .add hspells hkind hr', ?_, hf.addScaled hname hx (one_eq ▸ hasValue_one) ha⟩
    rw [Expr.linearize, hlinear, hrlinear']
    rfl

/-- The terms of an expression are listed in its form. -/
theorem spells_terms {e : Expr Float} {f : LinearForm Float} (h : ∀ t ∈ rest, IsWritten t.1)
    (hspells : Spells .sum ts e) (hlinear : e.linearize = .ok f) (hf : f.Lists terms 0)
    (hnames : ((terms ++ rest).map (·.2)).Nodup) (hus : us.map word = termsWords false rest) :
    ∃ (e' : Expr Float) (g : LinearForm Float), Spells .sum (ts ++ us) e' ∧
      e'.linearize = .ok g ∧ g.Lists (terms ++ rest) 0 := by
  induction rest generalizing terms ts us e f with
  | nil =>
    obtain rfl := List.map_eq_nil_iff.mp hus
    rw [List.append_nil, List.append_nil]
    exact ⟨e, f, hspells, hlinear, hf⟩
  | cons t rest ih =>
    obtain ⟨a, name⟩ := t
    obtain ⟨ha, hrest⟩ := List.forall_mem_cons.mp h
    have hsplit : termsWords false ((a, name) :: rest) = (signWords false a ++
        [(.number, Scalar.compact a.abs), (.ident, name)]) ++ termsWords false rest := by
      simp [termsWords]
    rw [hsplit] at hus
    obtain ⟨vs, ws, rfl, hvs, hws⟩ := List.map_eq_append_iff.mp hus
    have hname : name ∉ terms.map (·.2) := by
      rw [List.map_append, List.nodup_append] at hnames
      exact fun hmem => hnames.2.2 name hmem name List.mem_cons_self rfl
    obtain ⟨e', g, hspells', hlinear', hg⟩ := spells_next ha hspells hlinear hf hname hvs
    rw [List.append_cons] at hnames ⊢
    rw [← List.append_assoc]
    exact ih hrest hspells' hlinear' hg hnames hws

theorem spells_expression (hne : terms ≠ []) (h : ∀ t ∈ terms, IsWritten t.1)
    (hnames : (terms.map (·.2)).Nodup) (hts : ts.map word = termsWords true terms) :
    ∃ (e : Expr Float) (f : LinearForm Float), Spells .sum ts e ∧ e.linearize = .ok f ∧
      f.Lists terms 0 := by
  obtain ⟨⟨a, name⟩, rest, rfl⟩ := List.exists_cons_of_ne_nil hne
  obtain ⟨ha, hrest⟩ := List.forall_mem_cons.mp h
  have hsplit : termsWords true ((a, name) :: rest) = (signWords true a ++
      [(.number, Scalar.compact a.abs), (.ident, name)]) ++ termsWords false rest := by
    simp [termsWords]
  rw [hsplit] at hts
  obtain ⟨us, vs, rfl, hus, hvs⟩ := List.map_eq_append_iff.mp hts
  obtain ⟨e, f, hspells, hlinear, hf⟩ := spells_first ha hus
  exact spells_terms hrest (.term hspells) hlinear hf hnames hvs

end Spelling

end LinearProgram

import LinearProgram.Json.Reader
import LinearProgram.Proofs.Decimals

/-! # Numbers in JSON texts

The text of a natural number is read as that number, and the text of a double is a numeral that no
natural number is read from. Which double is read from the numeral is a question of rounding alone.
-/

namespace LinearProgram

namespace Json

/-- What may follow a value in a text without spaces. -/
def Ends (rest : List Char) : Prop := ∀ c ∈ rest.head?, c ∈ [',', ']', '\x7d']

theorem ends_nil : Ends [] := nofun

theorem ends_cons {c : Char} (h : c ∈ [',', ']', '\x7d']) (rest : List Char) :
    Ends (c :: rest) := by
  intro d hd
  rwa [← Option.some.inj hd]

/-- What follows a value does not continue a number. -/
theorem Ends.stops {rest : List Char} (h : Ends rest) : ∀ c ∈ rest.head?,
    c.isDigit = false ∧ c ≠ '.' ∧ c ≠ 'e' ∧ c ≠ 'E' := by
  intro c hc
  have hall : ∀ c ∈ [',', ']', '\x7d'], c.isDigit = false ∧ c ≠ '.' ∧ c ≠ 'e' ∧ c ≠ 'E' := by
    simp
  exact hall c (h c hc)

namespace Reader

variable {rest whole ds : List Char}

theorem exponent?_none (h : Ends rest) : Digits.exponent? rest = some (none, rest) := by
  cases rest with
  | nil => rfl
  | cons c rest =>
    obtain ⟨-, -, he, hE⟩ := h.stops c rfl
    rw [Digits.exponent?, if_neg (by simp [he, hE])]

/-- An exponent behind its sign. -/
theorem exponent?_some (h : Ends rest) (negative : Bool) (n : ℕ) :
    Digits.exponent? ('e' :: (if negative then '-' else '+') :: (Nat.toDigits 10 n ++ rest)) =
      some (some (if negative then -(n : ℤ) else n), rest) := by
  have hstop : ∀ c ∈ rest.head?, c.isDigit = false := fun c hc => (h.stops c hc).1
  have htake := Digits.takeWhile_append (Digits.isDigit_toDigits n) hstop
  have hdrop := Digits.dropWhile_append (Digits.isDigit_toDigits n) hstop
  cases negative <;>
    simp [Digits.exponent?, Digits.sign, htake, hdrop, Nat.toDigits_ne_nil, Digits.value_toDigits]

theorem fraction?_some (hds : ∀ c ∈ ds, c.isDigit = true) (hne : ds ≠ [])
    (hrest : ∀ c ∈ rest.head?, c.isDigit = false) :
    fraction? ('.' :: (ds ++ rest)) = some (ds, rest) := by
  rw [fraction?, Digits.takeWhile_append hds hrest, Digits.dropWhile_append hds hrest]
  simp [hne]

theorem fraction?_none (hrest : ∀ c ∈ rest.head?, c ≠ '.') : fraction? rest = some ([], rest) := by
  rw [fraction?]
  rintro cs rfl
  exact hrest '.' rfl rfl

/-- A numeral from its parts. -/
theorem unsigned?_append {negative : Bool} {fraction more rest' : List Char} {exponent : Option ℤ}
    (hwhole : ∀ c ∈ whole, c.isDigit = true) (hne : whole ≠ [])
    (hzero : whole.head? ≠ some '0' ∨ whole.length = 1)
    (hstop : ∀ c ∈ rest.head?, c.isDigit = false)
    (hfraction : fraction? rest = some (fraction, more))
    (hexponent : Digits.exponent? more = some (exponent, rest')) :
    unsigned? negative (whole ++ rest) = some (⟨negative, whole, fraction, exponent⟩, rest') := by
  have hdigits : (whole.isEmpty || (whole.head? == some '0' && whole.length != 1)) = false := by
    rcases hzero with hzero | hzero <;> simp [hne, hzero]
  rw [unsigned?, Digits.takeWhile_append hwhole hstop, Digits.dropWhile_append hwhole hstop]
  simp [hdigits, hfraction, hexponent]

/-- The characters are a numeral wherever it may end: not that of a natural number, as large as the
decimal, and with few digits before the point. -/
def SpellsDouble (d : Decimal) (cs : List Char) : Prop := ∃ q : Numeral,
  (q.fraction.isEmpty && q.exponent.isNone) = false ∧
    (Digits.value q.whole < wordBound ∧ q.decimal.size = d.size) ∧
    ∀ rest, Ends rest → unsigned? d.negative (cs ++ rest) = some (q, rest)

theorem value_lt_wordBound (hwhole : ∀ c ∈ whole, c.isDigit = true) (hlength : whole.length ≤ 16) :
    Digits.value whole < wordBound :=
  Nat.lt_of_lt_of_le (Digits.value_lt hwhole)
    (Nat.le_trans (Nat.pow_le_pow_right (by decide) hlength) (by decide))

variable {d : Decimal}

theorem spellsDouble_point (hwhole : ∀ c ∈ whole, c.isDigit = true) (hne : whole ≠ [])
    (hzero : whole.head? ≠ some '0' ∨ whole.length = 1) (hlength : whole.length ≤ 16)
    (hds : ∀ c ∈ ds, c.isDigit = true) (hne' : ds ≠ [])
    (hsize : Decimal.scaled (Digits.value (whole ++ ds)) (-(ds.length : ℤ)) = d.size) :
    SpellsDouble d (whole ++ '.' :: ds) := by
  refine ⟨⟨d.negative, whole, ds, none⟩, by simp [hne'],
    ⟨value_lt_wordBound hwhole hlength, ?_⟩, fun rest hrest => ?_⟩
  · rw [← hsize, Decimal.size, Numeral.decimal, Option.getD_none, zero_sub]
  · rw [List.append_assoc]
    refine unsigned?_append hwhole hne hzero ?_
      (fraction?_some hds hne' fun c hc => (hrest.stops c hc).1) (exponent?_none hrest)
    intro c hc
    obtain rfl := Option.some.inj hc
    rfl

theorem spellsDouble_exponent (below : Bool) {c : Char} (hc : c.isDigit = true)
    (hds : ∀ c ∈ ds, c.isDigit = true) (n : ℕ)
    (hsize : Decimal.scaled (Digits.value (c :: ds))
      ((if below then -(n : ℤ) else n) - ds.length) = d.size) :
    SpellsDouble d (c :: ((if ds.isEmpty then [] else '.' :: ds) ++
      'e' :: (if below then '-' else '+') :: Nat.toDigits 10 n)) := by
  have hwhole : ∀ c' ∈ [c], c'.isDigit = true := List.forall_mem_singleton.mpr hc
  refine ⟨⟨d.negative, [c], ds, some (if below then -(n : ℤ) else n)⟩, by simp,
    ⟨value_lt_wordBound hwhole (by simp), hsize⟩, fun rest hrest => ?_⟩
  have hexponent := exponent?_some hrest below n
  obtain ⟨more, hmore⟩ : ∃ more, more = 'e' :: (if below then '-' else '+') ::
      (Nat.toDigits 10 n ++ rest) := ⟨_, rfl⟩
  have hstop : ∀ c ∈ more.head?, c.isDigit = false ∧ c ≠ '.' := by
    rw [hmore]
    intro c hc
    obtain rfl := Option.some.inj hc
    decide
  rw [← hmore] at hexponent
  have hfraction :
      fraction? ((if ds.isEmpty then [] else '.' :: ds) ++ more) = some (ds, more) := by
    cases ds with
    | nil => exact fraction?_none fun c hc => (hstop c hc).2
    | cons e ds => exact fraction?_some hds (List.cons_ne_nil e ds) fun c hc => (hstop c hc).1
  have hpoint : ∀ c ∈ ((if ds.isEmpty then [] else '.' :: ds) ++ more).head?,
      c.isDigit = false := by
    cases ds with
    | nil => exact fun c hc => (hstop c hc).1
    | cons e ds =>
      intro c hc
      obtain rfl := Option.some.inj hc
      rfl
  have h := @unsigned?_append _ _ d.negative _ _ _ _ hwhole (List.cons_ne_nil _ _) (Or.inr rfl)
    hpoint hfraction hexponent
  rw [hmore] at h
  simpa using h

theorem isDigit_zeros (k : ℕ) (hds : ∀ c ∈ ds, c.isDigit = true) (hne : ds ≠ []) :
    (∀ c ∈ List.replicate k '0' ++ ds, c.isDigit = true) ∧ List.replicate k '0' ++ ds ≠ [] := by
  refine ⟨List.forall_mem_append.mpr ⟨fun c hc => ?_, hds⟩, by simp [hne]⟩
  rw [List.eq_of_mem_replicate hc]
  rfl

section Sizes

variable {digits : ℕ} {first : Char} {more : List Char}

/-- Digits behind zeros and a point. -/
theorem scaled_leadingZeros (h : Nat.toDigits 10 digits = ds) (k : ℕ) {exponent : ℤ}
    (hexponent : exponent = -(k + ds.length)) :
    Decimal.scaled (Digits.value (['0'] ++ (List.replicate k '0' ++ ds)))
      (-((List.replicate k '0' ++ ds).length : ℤ)) = Decimal.scaled digits exponent := by
  rw [Digits.value_append, Digits.value_append, Digits.value_zeros, ← h, Digits.value_toDigits,
    List.length_append, List.length_replicate, hexponent, h]
  have hzero : Digits.value ['0'] = 0 := rfl
  simp [hzero]

/-- Digits with a point after `k` more than the first, with zeros if they are too few. -/
theorem scaled_point (h : Nat.toDigits 10 digits = first :: more) (k : ℕ) {exponent : ℤ}
    (hexponent : exponent = k - more.length) (hds : ds =
      if (more.drop k).isEmpty then ['0'] else more.drop k) :
    Decimal.scaled (Digits.value (first :: (more.take k ++
      List.replicate (k + 1 - (first :: more).length) '0') ++ ds)) (-(ds.length : ℤ)) =
        Decimal.scaled digits exponent := by
  have hvalue : Digits.value (first :: more) = digits := h ▸ Digits.value_toDigits digits
  rw [hds]
  split
  · next hnone =>
    have hlength : more.length ≤ k := by simpa using hnone
    have hzeros : first :: (more.take k ++
        List.replicate (k + 1 - (first :: more).length) '0') ++ ['0'] =
          first :: more ++ List.replicate (k - more.length + 1) '0' := by
      rw [List.take_of_length_le hlength, List.length_cons, Nat.add_sub_add_right,
        List.replicate_succ']
      simp
    rw [hzeros, Digits.value_append, Digits.value_zeros, hvalue, List.length_replicate, add_zero,
      Decimal.scaled_mul_pow, hexponent, List.length_singleton]
    congr 1
    omega
  · next hsome =>
    have hlength : k < more.length := by simpa using hsome
    have hall : first :: (more.take k ++
        List.replicate (k + 1 - (first :: more).length) '0') ++ more.drop k = first :: more := by
      rw [List.length_cons, Nat.add_sub_add_right, Nat.sub_eq_zero_of_le hlength.le]
      simp
    rw [hall, hvalue, List.length_drop, hexponent, Nat.cast_sub hlength.le, neg_sub]

end Sizes

section Layouts

variable {first : Char} {more : List Char} (h : Nat.toDigits 10 d.digits = first :: more)

include h

theorem isDigit_digits : first.isDigit = true ∧ ∀ c ∈ more, c.isDigit = true := by
  have hdigits := Digits.isDigit_toDigits d.digits
  rwa [h, List.forall_mem_cons] at hdigits

/-- One digit, a point if more follow, and an exponent. -/
theorem spellsDouble_scientific {power : ℤ} (hexponent : d.exponent = power - more.length) :
    SpellsDouble d (first :: ((if more.isEmpty then [] else '.' :: more) ++
      'e' :: (if decide (power < 0) then '-' else '+') :: Nat.toDigits 10 power.natAbs)) := by
  obtain ⟨hfirst, hmore⟩ := isDigit_digits h
  have hvalue : Digits.value (first :: more) = d.digits := h ▸ Digits.value_toDigits d.digits
  have hsigned : (if decide (power < 0) then -(power.natAbs : ℤ) else power.natAbs) = power := by
    by_cases hneg : power < 0
    · rw [if_pos (decide_eq_true hneg)]
      omega
    · rw [if_neg (by simpa using hneg)]
      omega
  refine spellsDouble_exponent (decide (power < 0)) hfirst hmore power.natAbs ?_
  rw [hvalue, hsigned, Decimal.size, hexponent]

/-- The digits behind a point and zeros. -/
theorem spellsDouble_leadingZeros {k : ℕ} (hexponent : d.exponent = -(k + (first :: more).length)) :
    SpellsDouble d ('0' :: '.' :: (List.replicate k '0' ++ first :: more)) := by
  have hdigits : ∀ c ∈ first :: more, c.isDigit = true :=
    List.forall_mem_cons.mpr (isDigit_digits h)
  have hzero : ∀ c ∈ ['0'], c.isDigit = true := List.forall_mem_singleton.mpr rfl
  obtain ⟨hds, hne⟩ := isDigit_zeros k hdigits (List.cons_ne_nil _ _)
  exact @spellsDouble_point ['0'] _ d hzero (List.cons_ne_nil _ _) (Or.inr rfl) (by simp) hds hne
    (scaled_leadingZeros h k hexponent)

/-- The digits before a point, with zeros if they are too few, and the others behind it. -/
theorem spellsDouble_positional (h0 : d.digits ≠ 0) {k : ℕ} (hk : k < 16)
    (hexponent : d.exponent = k - more.length) :
    SpellsDouble d (first :: (more.take k ++
      List.replicate (k + 1 - (first :: more).length) '0') ++
        '.' :: if (more.drop k).isEmpty then ['0'] else more.drop k) := by
  obtain ⟨hfirst, hmore⟩ := isDigit_digits h
  have hhead := Digits.head?_toDigits h0
  rw [h] at hhead
  have hwhole : ∀ c ∈ first :: (more.take k ++
      List.replicate (k + 1 - (first :: more).length) '0'), c.isDigit = true := by
    rw [List.forall_mem_cons, List.forall_mem_append]
    refine ⟨hfirst, fun c hc => hmore c (List.mem_of_mem_take hc), fun c hc => ?_⟩
    rw [List.eq_of_mem_replicate hc]
    rfl
  have hplaces : ∀ ds, (ds = if (more.drop k).isEmpty then ['0'] else more.drop k) →
      (∀ c ∈ ds, c.isDigit = true) ∧ ds ≠ [] := by
    rintro ds rfl
    split
    · exact ⟨List.forall_mem_singleton.mpr rfl, List.cons_ne_nil _ _⟩
    · next hrest => exact ⟨fun c hc => hmore c (List.mem_of_mem_drop hc), by simpa using hrest⟩
  obtain ⟨hds, hne⟩ := hplaces _ rfl
  refine spellsDouble_point hwhole (List.cons_ne_nil _ _) (Or.inl hhead) ?_ hds hne
    (scaled_point h k hexponent rfl)
  simp only [List.length_cons, List.length_append, List.length_take, List.length_replicate]
  omega

end Layouts

/-- The texts of decimals are numerals of doubles behind their signs. -/
theorem exists_text (d : Decimal) : ∃ c cs, SpellsDouble d (c :: cs) ∧ c.isDigit = true ∧
    d.text.toList = (if d.negative then ['-'] else []) ++ c :: cs := by
  have hsign : (if d.negative then "-" else "").toList = if d.negative then ['-'] else [] := by
    cases d.negative <;> rfl
  have hzero : ∀ c ∈ ['0'], c.isDigit = true := List.forall_mem_singleton.mpr rfl
  obtain ⟨first, more, hall⟩ := List.exists_cons_of_ne_nil (@Nat.toDigits_ne_nil d.digits 10)
  have hfirst := (isDigit_digits hall).1
  rw [Decimal.text]
  split
  · next hnone =>
    refine ⟨'0', ['.', '0'], @spellsDouble_point ['0'] ['0'] d hzero (List.cons_ne_nil _ _)
      (Or.inr rfl) (by simp) hzero (List.cons_ne_nil _ _) ?_, rfl, ?_⟩
    · rw [Decimal.size, hnone, Decimal.scaled_zero]
      exact Decimal.scaled_zero _
    · rw [String.toList_append, hsign]
      rfl
  · next h0 =>
    simp only [hall]
    obtain ⟨power, hpower⟩ : ∃ power, power = ((first :: more).length : ℤ) - 1 + d.exponent :=
      ⟨_, rfl⟩
    have hexponent : d.exponent = power - more.length := by
      rw [hpower, List.length_cons]
      push_cast
      ring
    rw [← hpower]
    split
    · refine ⟨first, _, spellsDouble_scientific hall hexponent, hfirst, ?_⟩
      simp only [String.toList_append, hsign, List.append_assoc, List.tail_cons,
        String.toList_ofList, Nat.toString_eq_repr, Nat.toList_repr]
      congr 1
      by_cases hmore : more.isEmpty <;> by_cases hpower : power < 0 <;> simp [hmore, hpower]
    · next hfew =>
      split
      · next hbelow =>
        refine ⟨'0', _, @spellsDouble_leadingZeros d _ _ hall (power.natAbs - 1) ?_, rfl, ?_⟩
        · rw [hexponent, List.length_cons]
          omega
        · simp only [String.toList_append, hsign, Text.toList_pushn, List.append_assoc,
            String.toList_ofList]
          rfl
      · next hnonneg =>
        refine ⟨first, _, @spellsDouble_positional d _ _ hall h0 power.toNat (by omega) ?_, hfirst,
          ?_⟩
        · rw [hexponent, Int.toNat_of_nonneg (by omega)]
        · simp only [String.toList_append, hsign, Text.toList_pushn, List.append_assoc,
            String.toList_ofList, List.take_succ_cons, List.drop_succ_cons]
          by_cases hrest : (more.drop power.toNat).isEmpty <;> simp [hrest]

/-- The characters of a number begin with a digit or a minus. -/
def BeginsNumber (cs : List Char) : Prop := ∃ c more, cs = c :: more ∧ (c.isDigit = true ∨ c = '-')

theorem numeral?_of_isDigit {c : Char} {cs : List Char} (hc : c.isDigit = true) :
    numeral? (c :: cs) = unsigned? false (c :: cs) := by
  rw [numeral?]
  rintro rest h
  obtain ⟨rfl, -⟩ := List.cons.inj h
  cases hc

theorem numeral?_natural (n : ℕ) (hrest : Ends rest) : numeral? ((toString n).toList ++ rest) =
    some (⟨false, Nat.toDigits 10 n, [], none⟩, rest) := by
  have hdigits := Digits.isDigit_toDigits n
  have hzero : (Nat.toDigits 10 n).head? ≠ some '0' ∨ (Nat.toDigits 10 n).length = 1 := by
    by_cases hn : n = 0
    · exact Or.inr (by rw [hn]; rfl)
    · exact Or.inl (Digits.head?_toDigits hn)
  have hread := @unsigned?_append _ _ false _ _ _ _ hdigits Nat.toDigits_ne_nil hzero
    (fun c hc => (hrest.stops c hc).1) (fraction?_none fun c hc => (hrest.stops c hc).2.1)
    (exponent?_none hrest)
  rw [Nat.toString_eq_repr, Nat.toList_repr]
  obtain ⟨d, ds, hds⟩ := List.exists_cons_of_ne_nil (@Nat.toDigits_ne_nil n 10)
  rw [hds] at hread hdigits ⊢
  exact (numeral?_of_isDigit (hdigits d List.mem_cons_self)).trans hread

end Reader

namespace Number

open Reader

theorem ofFloat?_of_isFinite {x : Float} (hx : x.isFinite = true) :
    ∃ d, Decimal.ofFloat? x = some d := by
  obtain ⟨negative, num, den, hexact⟩ := Scalar.exists_exact hx
  change Exact.ofFloat x = _ at hexact
  rw [Decimal.ofFloat?, hexact]
  dsimp only
  split <;> exact ⟨_, rfl⟩

theorem beginsNumber_natural (n : ℕ) : BeginsNumber (toString n).toList := by
  rw [Nat.toString_eq_repr, Nat.toList_repr]
  obtain ⟨d, ds, hds⟩ := List.exists_cons_of_ne_nil (@Nat.toDigits_ne_nil n 10)
  exact ⟨d, ds, hds, Or.inl (Digits.isDigit_toDigits n d (hds ▸ List.mem_cons_self))⟩

/-- The text of a finite double is a numeral, wherever it may end. -/
theorem exists_numeral_float {x : Float} (hx : x.isFinite = true) :
    BeginsNumber (text (.float x)).toList ∧ ∃ q : Numeral,
      (q.fraction.isEmpty && q.exponent.isNone) = false ∧
        (Digits.value q.whole < wordBound ∧ q.decimal.size ≤ 2 * |Double.value x|) ∧
        ∀ rest, Ends rest → numeral? ((text (.float x)).toList ++ rest) = some (q, rest) := by
  obtain ⟨d, hd⟩ := ofFloat?_of_isFinite hx
  obtain ⟨c, cs, ⟨q, hq, ⟨hwhole, hsize⟩, hread⟩, hc, htext⟩ := exists_text d
  have htext' : (text (.float x)).toList = (if d.negative then ['-'] else []) ++ c :: cs := by
    rw [text, hd]
    exact htext
  rw [htext']
  refine ⟨?_, q, hq, ⟨hwhole, hsize.trans_le (Decimal.size_ofFloat_le hd)⟩, fun rest hrest => ?_⟩
  · cases d.negative with
    | true => exact ⟨'-', c :: cs, rfl, Or.inr rfl⟩
    | false => exact ⟨c, cs, rfl, Or.inl hc⟩
  · have h := hread rest hrest
    cases hneg : d.negative with
    | true =>
      rw [hneg] at h
      exact h
    | false =>
      rw [hneg] at h
      exact (numeral?_of_isDigit hc).trans h

end Number

/-- The numeral that is written for the first double is rounded to the second. -/
def ReadsAs (round : Numeral → Float) (x y : Float) : Prop :=
  (Reader.numeral? (Number.text (.float x)).toList).map (fun p => round p.1) = some y

/-- The numeral that is written for the double is rounded to the double. -/
def ReadsBack (round : Numeral → Float) (x : Float) : Prop :=
  (Reader.numeral? (Number.text (.float x)).toList).map (fun p => round p.1) = some x

instance (round : Numeral → Float) : DecidablePred (ReadsBack round) :=
  fun _ => inferInstanceAs (Decidable (_ = _))

namespace Numeral

theorem number_natural (round : Numeral → Float) {n : ℕ} (hn : n < wordBound) :
    number round ⟨false, Nat.toDigits 10 n, [], none⟩ = .natural n := by
  have hvalue : Digits.value (Nat.toDigits 10 n) < wordBound := by
    rwa [Digits.value_toDigits]
  rw [number]
  dsimp only
  rw [Digits.value_toDigits]
  simp [hn]

theorem number_float (round : Numeral → Float) {q : Numeral}
    (hq : (q.fraction.isEmpty && q.exponent.isNone) = false) :
    number round q = .float (round q) := by
  have hdouble : (!q.negative && q.fraction.isEmpty && q.exponent.isNone &&
      decide (Digits.value q.whole < wordBound)) = false := by
    rw [Bool.and_assoc (!q.negative), hq]
    simp
  rw [number, hdouble]
  rfl

end Numeral

end Json

end LinearProgram

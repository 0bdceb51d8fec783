import LinearProgram.Proofs.Json.Serialization

/-! # Values with other numbers

Whether a value is read does not depend on its doubles, as long as they are finite. If the doubles of
a value are read as others, but as finite ones, then its text is read as a value with those others in
their places.
-/

namespace LinearProgram

namespace Json

section Exchange

variable {g : Float → Float}

theorem mapFloats_float {x : Float} (hx : x.isFinite = true) (hg : (g x).isFinite = true) :
    (Json.float x).mapFloats g = Json.float (g x) := by
  rw [Json.float, if_pos hx, Json.float, if_pos hg]
  rfl

theorem mapFloats_record (slots : List (String × Option Json)) :
    (Json.record (written slots)).mapFloats g =
      .record (written (slots.map fun s => (s.1, s.2.map (mapFloats g)))) := by
  rw [Json.record, mapFloats_object, Json.record]
  induction slots with
  | nil => rfl
  | cons s slots ih =>
    have hrest := Json.object.inj ih
    obtain ⟨name, j⟩ := s
    cases j with
    | none => simpa [written] using hrest
    | some j => simpa [written] using hrest

end Exchange

/-- The written values nest up to `n` containers, and finite doubles may stand in the places of
theirs. -/
class Codec.Flexible {β : Type} (c : Codec β) (n : ℕ) : Prop where
  depth_le : ∀ v, (c.write v).depth ≤ n
  exchange : ∀ {g : Float → Float} {v},
    (∀ x ∈ c.floats v, x.isFinite = true ∧ (g x).isFinite = true) →
      ∃ w, c.write w = (c.write v).mapFloats g ∧ c.floats w = (c.floats v).map g ∧
        c.fits w = c.fits v

class SlotCodec.Flexible {β : Type} (c : SlotCodec β) (n : ℕ) : Prop where
  depth_le : ∀ v, ∀ j ∈ c.write v, j.depth ≤ n
  exchange : ∀ {g : Float → Float} {v},
    (∀ x ∈ c.floats v, x.isFinite = true ∧ (g x).isFinite = true) →
      ∃ w, c.write w = (c.write v).map (mapFloats g) ∧ c.floats w = (c.floats v).map g ∧
        c.fits w = c.fits v

class FieldsCodec.Flexible {γ : Type} (c : FieldsCodec γ) (n : ℕ) : Prop where
  depth_le : ∀ v, ∀ s ∈ c.slots v, ∀ j ∈ s.2, j.depth ≤ n
  exchange : ∀ {g : Float → Float} {v},
    (∀ x ∈ c.floats v, x.isFinite = true ∧ (g x).isFinite = true) →
      ∃ w, c.slots w = (c.slots v).map (fun s => (s.1, s.2.map (mapFloats g))) ∧
        c.floats w = (c.floats v).map g ∧ c.fits w = c.fits v

variable {β γ : Type} {n : ℕ}

namespace Codec

instance : bool.Flexible n where
  depth_le _ := Nat.zero_le n
  exchange {_ b} _ := ⟨b, rfl, rfl, rfl⟩

instance : text.Flexible n where
  depth_le _ := Nat.zero_le n
  exchange {_ s} _ := ⟨s, rfl, rfl, rfl⟩

instance {bound : ℕ} {hbound : bound ≤ wordBound} : (natural bound hbound).Flexible n where
  depth_le _ := Nat.zero_le n
  exchange {_ k} _ := ⟨k, rfl, rfl, rfl⟩

instance : count.Flexible n := inferInstanceAs ((natural _ _).Flexible n)

instance : float.Flexible n where
  depth_le x := (depth_float x).trans_le (Nat.zero_le n)
  exchange {g x} hx := by
    obtain ⟨hfinite, hg⟩ := hx x List.mem_cons_self
    exact ⟨g x, (mapFloats_float hfinite hg).symm, rfl, rfl⟩

instance {names : List (String × β)} {write : β → Json}
    {h : ∀ v, ∃ name, write v = .text name ∧ names.lookup name = some v} :
    (named names write h).Flexible n where
  depth_le v := by
    obtain ⟨name, hname, -⟩ := h v
    change (write v).depth ≤ n
    rw [hname]
    exact Nat.zero_le n
  exchange {g v} _ := by
    obtain ⟨name, hname, -⟩ := h v
    exact ⟨v, (congrArg (mapFloats g) hname).symm ▸ hname, rfl, rfl⟩

variable (c : Codec β) [hc : c.Flexible n]

instance : c.list.Flexible (n + 1) where
  depth_le vs := by
    refine Nat.succ_le_succ (depthElements_le.mpr (List.forall_mem_map.mpr fun v _ => ?_))
    exact hc.depth_le v
  exchange {g vs} hvs := by
    change ∃ ws, Json.list c.write ws = (Json.list c.write vs).mapFloats g ∧
      ws.flatMap c.floats = (vs.flatMap c.floats).map g ∧ ws.all c.fits = vs.all c.fits
    change ∀ x ∈ vs.flatMap c.floats, _ at hvs
    simp only [Json.list, mapFloats_array, Json.array.injEq]
    induction vs with
    | nil => exact ⟨[], rfl, rfl, rfl⟩
    | cons v vs ih =>
      rw [List.flatMap_cons, List.forall_mem_append] at hvs
      obtain ⟨w, hw, hfloats, hfits⟩ := hc.exchange hvs.1
      obtain ⟨ws, hws, hmore, hall⟩ := ih hvs.2
      exact ⟨w :: ws, by simp [hw, hws], by simp [hfloats, hmore], by simp [hfits, hall]⟩

instance {hnull : ∀ place, c.read place .null = none} : (c.option hnull).Flexible n where
  depth_le v := by
    cases v with
    | none => exact Nat.zero_le n
    | some v => exact hc.depth_le v
  exchange {g v} hv := by
    cases v with
    | none => exact ⟨none, rfl, rfl, rfl⟩
    | some v =>
      obtain ⟨w, hw⟩ := hc.exchange hv
      exact ⟨some w, hw⟩

instance : c.required.Flexible n where
  depth_le v := by
    rintro j ⟨⟩
    exact hc.depth_le v
  exchange {g v} hv := by
    obtain ⟨w, hw, hrest⟩ := hc.exchange hv
    exact ⟨w, congrArg some hw, hrest⟩

instance {hnull : ∀ place, c.read place .null = none} : (c.optional hnull).Flexible n where
  depth_le v := by
    rintro j ⟨⟩
    exact Flexible.depth_le (c := c.option hnull) v
  exchange {g v} hv := by
    obtain ⟨w, hw, hrest⟩ := Flexible.exchange (c := c.option hnull) (n := n) hv
    exact ⟨w, congrArg some hw, hrest⟩

end Codec

namespace FieldsCodec

instance : nil.Flexible n where
  depth_le _ := by simp [nil]
  exchange _ := ⟨(), rfl, rfl, rfl⟩

instance {name : String} (c : SlotCodec β) (rest : FieldsCodec γ) [hc : c.Flexible n]
    [hrest : rest.Flexible n] : (cons name c rest).Flexible n where
  depth_le v := List.forall_mem_cons.mpr ⟨hc.depth_le v.1, hrest.depth_le v.2⟩
  exchange {g v} hv := by
    obtain ⟨hv, hmore⟩ := List.forall_mem_append.mp hv
    obtain ⟨w, hw, hfloats, hfits⟩ := hc.exchange hv
    obtain ⟨more, hslots, hfloats', hfits'⟩ := hrest.exchange hmore
    exact ⟨(w, more), by simp [cons, hw, hslots], by simp [cons, hfloats, hfloats'],
      by simp [cons, hfits, hfits']⟩

theorem flexible_record (c : FieldsCodec γ) [hc : c.Flexible n] {names : List (List String)}
    {write : β → Json} {read : Decoder β} {fields : β → γ} {make : γ → β} {hnames : FirstNames names c.names}
    {hwrite : ∀ v, write v = .record (written (c.slots (fields v)))}
    {hread : ∀ place j, read place j =
      (fields? names place j).bind fun f => c.read f fun w => some (make w)}
    {hmake : ∀ v, make (fields v) = v} {hfields : ∀ w, fields (make w) = w} :
    (c.record names write read fields make hnames hwrite hread hmake hfields).Flexible (n + 1) where
  depth_le v := by
    change (write v).depth ≤ n + 1
    rw [hwrite]
    exact depth_record.mpr (hc.depth_le (fields v))
  exchange {g v} hv := by
    obtain ⟨w, hw, hrest⟩ := hc.exchange hv
    refine ⟨make w, ?_, ?_⟩
    · change write (make w) = (write v).mapFloats g
      rw [hwrite, hwrite, hfields, hw, mapFloats_record]
    · change c.floats (fields (make w)) = _ ∧ c.fits (fields (make w)) = _
      rw [hfields]
      exact hrest

end FieldsCodec

/-- The double that is read from the text of a double. -/
def reading (round : Numeral → Float) (x : Float) : Float :=
  ((Reader.numeral? (Number.text (.float x)).toList).map fun p => round p.1).getD x

/-- The text of a double is read as a finite one. -/
def ReadsFinite (round : Numeral → Float) (x : Float) : Prop :=
  ∃ y : Float, y.isFinite = true ∧ ReadsAs round x y

variable {round : Numeral → Float}

theorem ReadsAs.reading_eq {x y : Float} (h : ReadsAs round x y) : reading round x = y := by
  rw [reading, h]
  rfl

/-- A value whose doubles are read as finite ones is read as a value. -/
theorem Codec.exists_read (c : Codec β) [hc : c.Flexible n] (hn : n ≤ depthLimit) {v : β}
    (hv : ∀ x ∈ c.floats v, x.isFinite = true ∧ ReadsFinite round x) (hfits : c.fits v = true) :
    ∃ w, (ofChars? round (c.write v).compact.toList).bind (decode? c.read) = some w ∧
      c.floats w = (c.floats v).map (reading round) := by
  have hreading : ∀ x ∈ c.floats v, x.isFinite = true ∧ (reading round x).isFinite = true ∧
      ReadsAs round x (reading round x) := by
    intro x hx
    obtain ⟨hfinite, y, hy, hread⟩ := hv x hx
    rw [hread.reading_eq]
    exact ⟨hfinite, hy, hread⟩
  obtain ⟨w, hwrite, hfloats, hfits'⟩ := hc.exchange fun x hx =>
    ⟨(hreading x hx).1, (hreading x hx).2.1⟩
  have hchars := ofChars?_mapFloats (c.spelled
    (fun x hx => ⟨(hreading x hx).1, (hreading x hx).2.2⟩) hfits)
  have hfinite : ∀ x ∈ c.floats w, x.isFinite = true := by
    rw [hfloats, List.forall_mem_map]
    exact fun x hx => (hreading x hx).2.1
  have hread : c.read ⟨depthLimit, false⟩ (c.write w) = some w :=
    c.read_write hfinite (hfits'.trans hfits) ((hc.depth_le w).trans hn)
  rw [hchars, ← hwrite, Option.bind_some]
  exact ⟨w, hread, hfloats⟩

end Json

open Json

variable {n : ℕ}

instance : Sense.codec.Flexible n := by unfold Sense.codec; infer_instance

instance : Relation.codec.Flexible n := by unfold Relation.codec; infer_instance

instance : Status.codec.Flexible n := by unfold Status.codec; infer_instance

instance : Multiplicity.codec.Flexible n := by unfold Multiplicity.codec; infer_instance

instance : Discipline.codec.Flexible n := by unfold Discipline.codec; infer_instance

instance : phaseCodec.Flexible n := by unfold phaseCodec; infer_instance

instance : Constraint.codec.Flexible (n + 2) := FieldsCodec.flexible_record _

instance : Check.codec.Flexible (n + 1) := FieldsCodec.flexible_record _

instance : Point.codec.Flexible (n + 1) where
  depth_le p := Codec.Flexible.depth_le (c := Codec.float.list) [p.x, p.y]
  exchange {g p} hp := by
    obtain ⟨hx, hx'⟩ := hp p.x List.mem_cons_self
    obtain ⟨hy, hy'⟩ := hp p.y (List.mem_cons_of_mem _ List.mem_cons_self)
    refine ⟨⟨g p.x, g p.y⟩, ?_, rfl, rfl⟩
    change Point.toJson ⟨g p.x, g p.y⟩ = (Point.toJson p).mapFloats g
    rw [Point.toJson, Point.toJson, Json.list, Json.list, mapFloats_array]
    simp [mapFloats_float hx hx', mapFloats_float hy hy']

namespace Event

instance : linesCodec.Flexible (n + 1) where
  depth_le lines := Codec.Flexible.depth_le (c := Codec.text.list) [lines.1, lines.2]
  exchange {_ lines} _ := ⟨lines, rfl, rfl, rfl⟩

theorem Variant.flexible_fields {v : Variant} (hv : v ∈ all) : v.fields.Flexible 3 := by
  fin_cases hv
  all_goals
    dsimp only [objective, constraintList, degenerateConstraint, parallelLines, intersection,
      feasibilityCheck, duplicateVertex, vertexEvaluation, optimumSelected, infeasible,
      standardForm, rowNormalized, phaseStarted, phaseCompleted, initialTableau, optimalityReached,
      enteringVariable, ratioTest, pivot, artificialDrivenOut, penaltyRecheck, unbounded,
      iterationLimit, solution]
    infer_instance

theorem kind_eq (e : Event Float) : e.kind = e.parts.1.kind := by
  cases e <;> rfl

instance : codec.Flexible 5 where
  depth_le e := by
    have hfields := e.parts.1.flexible_fields (List.mem_of_find?_eq_some (named?_kind e))
    change e.toJson.depth ≤ 5
    rw [depth_toJson, payload_eq]
    exact Nat.succ_le_succ (FieldsCodec.depth_record.mpr (hfields.depth_le e.parts.2))
  exchange {g e} he := by
    have hkind := named?_kind e
    have hfields := e.parts.1.flexible_fields (List.mem_of_find?_eq_some hkind)
    obtain ⟨w, hw, hrest⟩ := hfields.exchange he
    have hparts := parts_make hkind w
    refine ⟨e.parts.1.make w, ?_, ?_⟩
    · change (e.parts.1.make w).toJson = e.toJson.mapFloats g
      have hpayload : Json.record (e.parts.1.make w).payload =
          (Json.record e.payload).mapFloats g := by
        rw [payload_eq, payload_eq, hparts, hw, mapFloats_record]
      have hkind' : (e.parts.1.make w).kind = e.kind := by
        rw [kind_eq, kind_eq, hparts]
      refine Eq.trans ?_ (mapFloats_record [("kind", some (.text e.kind)),
        ("payload", some (.record e.payload))]).symm
      rw [toJson, hpayload, hkind']
      rfl
    · change (e.parts.1.make w).parts.1.fields.floats (e.parts.1.make w).parts.2 = _ ∧
        (e.parts.1.make w).parts.1.fields.fits (e.parts.1.make w).parts.2 = _
      rw [hparts]
      exact hrest

end Event

instance : Trace.codec.Flexible 6 := inferInstanceAs (Event.codec.list.Flexible (5 + 1))

instance : CornerResponse.codec.Flexible 7 := FieldsCodec.flexible_record _

end LinearProgram

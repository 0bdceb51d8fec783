import LinearProgram.Proofs.Json.Codec

/-! # Codecs of records

A record is written field by field, some fields only if they have a value, and its fields are found
by their names again. Its codec is put together from the codecs of its fields.
-/

namespace LinearProgram

namespace Json

/-- The fields of a record that have a value. -/
def written (slots : List (String × Option Json)) : List (String × Json) :=
  slots.filterMap fun (name, j) => j.map (name, ·)

/-- Different names that are the first of their fields' names. -/
def FirstNames (names : List (List String)) (firsts : List String) : Prop :=
  firsts.Nodup ∧ ∀ name ∈ firsts, fieldNamed? names name = some name

instance (names : List (List String)) (firsts : List String) :
    Decidable (FirstNames names firsts) :=
  inferInstanceAs (Decidable (_ ∧ _))

/-- Names without any others are first names. -/
theorem firstNames_singleton {names : List String} (h : names.Nodup) :
    FirstNames (names.map ([·])) names := by
  refine ⟨h, fun name hname => ?_⟩
  rw [fieldNamed?, List.find?_map]
  cases hfind : names.find? ((·.contains name) ∘ ([·])) with
  | none => simpa using List.find?_eq_none.mp hfind name hname
  | some found =>
    have heq : name = found := by simpa using List.find?_some hfind
    rw [heq]
    rfl

theorem collect_written {names : List (List String)} {found fields : List (String × Json)}
    (hnodup : ((found ++ fields).map Prod.fst).Nodup)
    (hfirst : ∀ f ∈ fields, fieldNamed? names f.1 = some f.1) :
    collect names found (fields.map fun (name, j) => (some name, j)) = some (found ++ fields) := by
  induction fields generalizing found with
  | nil => rw [List.append_nil]; rfl
  | cons f fields ih =>
    obtain ⟨name, j⟩ := f
    obtain ⟨hname, hfirst⟩ := List.forall_mem_cons.mp hfirst
    have hlookup : found.lookup name = none := by
      rw [List.map_append, List.map_cons] at hnodup
      have hnot := (List.nodup_middle.mp hnodup).notMem
      refine List.lookup_eq_none_iff.mpr fun g hg => ?_
      have hne : name ≠ g.1 := by
        rintro rfl
        exact hnot (List.mem_append_left _ (List.mem_map.mpr ⟨g, hg, rfl⟩))
      simpa using hne
    rw [List.append_cons] at hnodup ⊢
    simp only [List.map_cons, collect, hname, hlookup]
    exact ih hnodup hfirst

theorem mem_written {slots : List (String × Option Json)} {f : String × Json} :
    f ∈ written slots ↔ (f.1, some f.2) ∈ slots := by
  obtain ⟨name, j⟩ := f
  simp [written]

theorem sublist_written (slots : List (String × Option Json)) :
    ((written slots).map Prod.fst).Sublist (slots.map Prod.fst) := by
  induction slots with
  | nil => exact .slnil
  | cons s slots ih =>
    obtain ⟨name, j⟩ := s
    cases j with
    | none => exact ih.cons name
    | some j => exact ih.cons_cons name

theorem lookup_written {slots : List (String × Option Json)} (h : (slots.map Prod.fst).Nodup) :
    ∀ s ∈ slots, (written slots).lookup s.1 = s.2 := by
  induction slots with
  | nil => exact nofun
  | cons s slots ih =>
    obtain ⟨name, j⟩ := s
    obtain ⟨hname, hnodup⟩ := List.nodup_cons.mp h
    have hnot : ∀ t ∈ slots, t.1 ≠ name := fun t ht heq =>
      hname (List.mem_map.mpr ⟨t, ht, heq⟩)
    have hih := ih hnodup
    refine List.forall_mem_cons.mpr ⟨?_, fun t ht => ?_⟩
    · cases j with
      | some j => simp [written]
      | none =>
        refine List.lookup_eq_none_iff.mpr fun f hf => ?_
        have hmem : f ∈ written slots := by simpa [written] using hf
        simpa using (hnot _ (mem_written.mp hmem)).symm
    · rw [← hih t ht]
      have hne : (t.1 == name) = false := by simpa using hnot t ht
      cases j with
      | none => rfl
      | some j => simp [written, List.lookup_cons, hne]

variable {place inside : Place} {names : List (List String)}

/-- The fields of a record that was written are found by their names. -/
theorem fields?_record {slots : List (String × Option Json)} (hinside : place.inside? = some inside)
    (h : FirstNames names (slots.map Prod.fst)) :
    fields? names place (.record (written slots)) = some ⟨written slots, inside⟩ := by
  obtain ⟨hnodup, hfirst⟩ := h
  have hcollect := @collect_written names [] (written slots)
    (hnodup.sublist (sublist_written slots)) fun f hf =>
    hfirst _ (List.mem_map_of_mem (mem_written.mp hf))
  rw [Json.record, fields?, hinside]
  simp [hcollect]

theorem place_of_fields? {j : Json} {f : Fields} (h : fields? names place j = some f) :
    place.inside? = some f.place := by
  unfold fields? at h
  split at h
  · simp only [Option.bind_eq_bind, Option.bind_eq_some_iff, Option.map_eq_some_iff] at h
    obtain ⟨inside, hinside, -, -, rfl⟩ := h
    exact hinside
  · simp only [Option.bind_eq_bind, Option.bind_eq_some_iff] at h
    obtain ⟨inside, hinside, h⟩ := h
    split at h
    · obtain rfl := Option.some.inj h
      exact hinside
    · cases h
  · cases h

section Single

variable {name : String} {value : Json}

theorem depth_single (name : String) (value : Json) :
    (Json.record [(name, value)]).depth = value.depth + 1 := by
  simp [Json.record, depth, depthFields]

theorem spelled_single {P : Float → Prop} (h : value.Spelled P) (name : String) :
    (Json.record [(name, value)]).Spelled P :=
  .object (by simp) (by simpa using h)

/-- An object with one field that was written is read as that field. -/
theorem exists_single (h : (Json.record [(name, value)]).depth ≤ place.room) :
    ∃ inside, Decoder.single place (.record [(name, value)]) = some (inside, name, value) ∧
      value.depth ≤ inside.room := by
  rw [depth_single] at h
  obtain ⟨inside, hinside, hroom, -⟩ := Place.inside?_of_depth h
  refine ⟨inside, ?_, hroom⟩
  rw [Json.record]
  simp [Decoder.single, hinside]

theorem inside_of_single {j : Json}
    (h : Decoder.single place j = some (inside, name, value)) : place.inside? = some inside := by
  unfold Decoder.single at h
  split at h
  · simp only [Option.bind_eq_bind, Option.bind_eq_some_iff] at h
    obtain ⟨inside', hinside, h⟩ := h
    cases h
    exact hinside
  · cases h

end Single

/-- A writer and a reader of what stands in one field, none where the field is missing. -/
structure SlotCodec (β : Type) where
  write : β → Option Json
  read : Place → Option Json → Option β
  floats : β → List Float
  fits : β → Bool
  spelled : ∀ {P v}, (∀ x ∈ floats v, x.isFinite = true ∧ P x) → fits v = true →
    ∀ j ∈ write v, j.Spelled P
  read_write : ∀ {place v}, (∀ x ∈ floats v, x.isFinite = true) → fits v = true →
    (∀ j ∈ write v, j.depth ≤ place.room) → read place (write v) = some v
  of_read : ∀ {place found v}, read place found = some v →
    (∀ x ∈ floats v, x.isFinite = true) ∧ fits v = true ∧ ∀ j ∈ write v, j.depth ≤ place.room

namespace Codec

variable {β : Type} (c : Codec β)

def required : SlotCodec β where
  write v := some (c.write v)
  read place found := found.bind (c.read place)
  floats := c.floats
  fits := c.fits
  spelled hv hfits := by
    rintro j ⟨⟩
    exact c.spelled hv hfits
  read_write hv hfits hdepth := c.read_write hv hfits (hdepth _ rfl)
  of_read {place found v} h := by
    obtain ⟨j, -, h⟩ := Option.bind_eq_some_iff.mp h
    obtain ⟨hfloats, hfits, hdepth⟩ := c.of_read h
    exact ⟨hfloats, hfits, by rintro j ⟨⟩; exact hdepth⟩

/-- A missing field stands for nothing, as null does. -/
def optional (hnull : ∀ place, c.read place .null = none) : SlotCodec (Option β) where
  write v := some (.option c.write v)
  read place found := match found with
    | none => some none
    | some j => Decoder.optional c.read place j
  floats := (c.option hnull).floats
  fits := (c.option hnull).fits
  spelled hv hfits := by
    rintro j ⟨⟩
    exact (c.option hnull).spelled hv hfits
  read_write hv hfits hdepth := (c.option hnull).read_write hv hfits (hdepth _ rfl)
  of_read {place found v} h := by
    cases found with
    | none =>
      obtain rfl := Option.some.inj h
      exact ⟨nofun, rfl, by rintro j ⟨⟩; exact Nat.zero_le _⟩
    | some j =>
      obtain ⟨hfloats, hfits, hdepth⟩ := (c.option hnull).of_read h
      exact ⟨hfloats, hfits, by rintro j ⟨⟩; exact hdepth⟩

/-- A field that is left out if there is nothing in it. -/
def skipped (hnull : ∀ place, c.read place .null = none) : SlotCodec (Option β) where
  write v := v.map c.write
  read := (c.optional hnull).read
  floats := (c.option hnull).floats
  fits := (c.option hnull).fits
  spelled {P v} hv hfits j hj := by
    obtain ⟨w, rfl, rfl⟩ := Option.map_eq_some_iff.mp hj
    exact c.spelled hv hfits
  read_write {place v} hv hfits hdepth := by
    cases v with
    | none => rfl
    | some v => exact (c.option hnull).read_write hv hfits (hdepth _ rfl)
  of_read {place found v} h := by
    obtain ⟨hfloats, hfits, hdepth⟩ := (c.optional hnull).of_read h
    refine ⟨hfloats, hfits, fun j hj => ?_⟩
    obtain ⟨w, rfl, rfl⟩ := Option.map_eq_some_iff.mp hj
    exact hdepth _ rfl

end Codec

/-- Codecs of the fields of a record, in the order in which they are written. What is read goes on
with whatever is made of it. -/
structure FieldsCodec (γ : Type) where
  names : List String
  slots : γ → List (String × Option Json)
  read : {δ : Type} → Fields → (γ → Option δ) → Option δ
  floats : γ → List Float
  fits : γ → Bool
  names_slots : ∀ v, (slots v).map Prod.fst = names
  spelled : ∀ {P v}, (∀ x ∈ floats v, x.isFinite = true ∧ P x) → fits v = true →
    ∀ s ∈ slots v, ∀ j ∈ s.2, j.Spelled P
  read_slots : ∀ {δ : Type} {f : Fields} {v} (make : γ → Option δ),
    (∀ x ∈ floats v, x.isFinite = true) → fits v = true →
    (∀ s ∈ slots v, f.found.lookup s.1 = s.2 ∧ ∀ j ∈ s.2, j.depth ≤ f.place.room) →
    read f make = make v
  of_read : ∀ {δ : Type} {f : Fields} {make : γ → Option δ} {w}, read f make = some w →
    ∃ v, make v = some w ∧ (∀ x ∈ floats v, x.isFinite = true) ∧ fits v = true ∧
      ∀ s ∈ slots v, ∀ j ∈ s.2, j.depth ≤ f.place.room

namespace FieldsCodec

variable {β γ : Type}

def nil : FieldsCodec Unit where
  names := []
  slots _ := []
  read _ make := make ()
  floats _ := []
  fits _ := true
  names_slots _ := rfl
  spelled _ _ := nofun
  read_slots _ _ _ _ := rfl
  of_read h := ⟨(), h, nofun, rfl, nofun⟩

def cons (name : String) (c : SlotCodec β) (rest : FieldsCodec γ) : FieldsCodec (β × γ) where
  names := name :: rest.names
  slots v := (name, c.write v.1) :: rest.slots v.2
  read f make := (c.read f.place (f.found.lookup name)).bind fun v =>
    rest.read f fun more => make (v, more)
  floats v := c.floats v.1 ++ rest.floats v.2
  fits v := c.fits v.1 && rest.fits v.2
  names_slots v := congrArg _ (rest.names_slots v.2)
  spelled hv hfits := by
    rw [List.forall_mem_append] at hv
    rw [Bool.and_eq_true] at hfits
    exact List.forall_mem_cons.mpr ⟨c.spelled hv.1 hfits.1, rest.spelled hv.2 hfits.2⟩
  read_slots {δ f v} make hv hfits hslots := by
    rw [List.forall_mem_append] at hv
    rw [Bool.and_eq_true] at hfits
    obtain ⟨⟨hfound, hdepth⟩, hslots⟩ := List.forall_mem_cons.mp hslots
    rw [hfound, c.read_write hv.1 hfits.1 hdepth]
    exact rest.read_slots (fun more => make (v.1, more)) hv.2 hfits.2 hslots
  of_read {δ f make w} h := by
    obtain ⟨v, hv, h⟩ := Option.bind_eq_some_iff.mp h
    obtain ⟨more, hmore, hfloats', hfits', hdepth'⟩ := rest.of_read h
    obtain ⟨hfloats, hfits, hdepth⟩ := c.of_read hv
    exact ⟨(v, more), hmore, List.forall_mem_append.mpr ⟨hfloats, hfloats'⟩,
      by simp [hfits, hfits'], List.forall_mem_cons.mpr ⟨hdepth, hdepth'⟩⟩

/-- The depth of a record is that of its deepest field and one more. -/
theorem depth_record {slots : List (String × Option Json)} {n : ℕ} :
    (Json.record (written slots)).depth ≤ n + 1 ↔ ∀ s ∈ slots, ∀ j ∈ s.2, j.depth ≤ n := by
  rw [Json.record, depth, Nat.add_le_add_iff_right, depthFields_le, List.forall_mem_map]
  constructor
  · rintro h ⟨name, j⟩ hs j' rfl
    exact h (name, j') (mem_written.mpr hs)
  · intro h f hf
    exact h _ (mem_written.mp hf) f.2 rfl

theorem spelled_record (c : FieldsCodec γ) {P : Float → Prop} {v : γ}
    (hv : ∀ x ∈ c.floats v, x.isFinite = true ∧ P x) (hfits : c.fits v = true) :
    (Json.record (written (c.slots v))).Spelled P := by
  refine .object (List.forall_mem_map.mpr fun f _ => rfl) (List.forall_mem_map.mpr fun f hf => ?_)
  exact c.spelled hv hfits _ (mem_written.mp hf) f.2 rfl

/-- What is written for the fields is read by their names. -/
theorem read_record (c : FieldsCodec γ) {δ : Type} (make : γ → Option δ) {v : γ}
    (h : FirstNames names c.names) (hv : ∀ x ∈ c.floats v, x.isFinite = true)
    (hfits : c.fits v = true) (hdepth : (Json.record (written (c.slots v))).depth ≤ place.room) :
    ((fields? names place (.record (written (c.slots v)))).bind fun f => c.read f make) =
      make v := by
  have hroom : 1 ≤ place.room := Nat.le_trans (Nat.le_add_left 1 _) hdepth
  obtain ⟨inside, hinside, -, -⟩ := Place.inside?_of_depth hroom
  rw [Place.room_eq hinside, depth_record] at hdepth
  rw [← c.names_slots v] at h
  rw [fields?_record hinside h]
  exact c.read_slots make hv hfits fun s hs => ⟨lookup_written h.1 s hs, hdepth s hs⟩

/-- The codec of a record that is made of its fields; these may have other names besides those they
are written with. -/
def record (c : FieldsCodec γ) (names : List (List String)) (write : β → Json) (read : Decoder β)
    (fields : β → γ) (make : γ → β) (hnames : FirstNames names c.names)
    (hwrite : ∀ v, write v = .record (written (c.slots (fields v))))
    (hread : ∀ place j, read place j =
      (fields? names place j).bind fun f => c.read f fun w => some (make w))
    (hmake : ∀ v, make (fields v) = v) (hfields : ∀ w, fields (make w) = w) : Codec β where
  write := write
  read := read
  floats v := c.floats (fields v)
  fits v := c.fits (fields v)
  spelled {P v} hv hfits := by
    rw [hwrite]
    exact c.spelled_record hv hfits
  read_write {place v} hv hfits hdepth := by
    rw [hwrite] at hdepth ⊢
    rw [hread, c.read_record _ hnames hv hfits hdepth, hmake]
  of_read {place j v} h := by
    rw [hread] at h
    obtain ⟨f, hf, h⟩ := Option.bind_eq_some_iff.mp h
    obtain ⟨w, hw, hfloats, hfits, hdepth⟩ := c.of_read h
    obtain rfl := Option.some.inj hw
    rw [hwrite, hfields, Place.room_eq (place_of_fields? hf), depth_record]
    exact ⟨hfloats, hfits, hdepth⟩

end FieldsCodec

end Json

end LinearProgram

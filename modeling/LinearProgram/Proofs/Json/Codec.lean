import LinearProgram.Json.Decoder
import LinearProgram.Proofs.Json.Texts

/-! # Codecs

A codec is a writer and a reader of the values of a type that undo each other. What is written is
read as the value, unless a double is not finite or a natural number too great for its field; and
whatever a value was read from, the value could be written. Codecs of records are put together from
codecs of their fields.
-/

namespace LinearProgram

namespace Json

mutual

/-- How many containers are nested. -/
def depth : Json → ℕ
  | array elements => depthElements elements + 1
  | object fields => depthFields fields + 1
  | _ => 0

def depthElements : List Json → ℕ
  | [] => 0
  | j :: rest => max (depth j) (depthElements rest)

def depthFields : List (Option String × Json) → ℕ
  | [] => 0
  | (_, j) :: rest => max (depth j) (depthFields rest)

end

theorem depthElements_le {elements : List Json} {n : ℕ} :
    depthElements elements ≤ n ↔ ∀ j ∈ elements, depth j ≤ n := by
  induction elements with
  | nil => simp [depthElements]
  | cons j rest ih => simp [depthElements, ih]

theorem depthFields_le {fields : List (Option String × Json)} {n : ℕ} :
    depthFields fields ≤ n ↔ ∀ f ∈ fields, depth f.2 ≤ n := by
  induction fields with
  | nil => simp [depthFields]
  | cons f rest ih => simp [depthFields, ih]

theorem depth_float (x : Float) : (Json.float x).depth = 0 := by
  unfold Json.float
  split <;> rfl

theorem Place.inside?_of_depth {place : Place} {n : ℕ} (h : n + 1 ≤ place.room) :
    ∃ inside, place.inside? = some inside ∧ n ≤ inside.room ∧ inside.early = place.early := by
  obtain ⟨room, early⟩ := place
  cases room with
  | zero => simp at h
  | succ room => exact ⟨_, rfl, by simpa using h, rfl⟩

theorem Place.room_eq {place inside : Place} (h : place.inside? = some inside) :
    place.room = inside.room + 1 := by
  obtain ⟨room, early⟩ := place
  cases room with
  | zero => cases h
  | succ room =>
    obtain rfl := Option.some.inj h
    rfl

/-- Lists are read element by element. -/
theorem mapM_map {α β : Type} {f : β → Option α} {g : α → β} {xs : List α}
    (hf : ∀ x ∈ xs, f (g x) = some x) : (xs.map g).mapM f = some xs := by
  induction xs with
  | nil => rfl
  | cons x xs ih =>
    obtain ⟨hx, hxs⟩ := List.forall_mem_cons.mp hf
    rw [List.map_cons, List.mapM_cons, hx, ih hxs]
    rfl

theorem exists_of_mapM {α β : Type} {f : α → Option β} {xs : List α} {ys : List β}
    (h : xs.mapM f = some ys) : ∀ y ∈ ys, ∃ x ∈ xs, f x = some y := by
  induction xs generalizing ys with
  | nil =>
    obtain rfl := Option.some.inj h
    exact nofun
  | cons x xs ih =>
    simp only [List.mapM_cons, Option.bind_eq_bind, Option.bind_eq_some_iff, Option.pure_def,
      Option.some.injEq] at h
    obtain ⟨y, hy, more, hmore, rfl⟩ := h
    refine List.forall_mem_cons.mpr ⟨⟨x, List.mem_cons_self, hy⟩, fun z hz => ?_⟩
    obtain ⟨w, hw, hz⟩ := ih hmore z hz
    exact ⟨w, List.mem_cons_of_mem _ hw, hz⟩

/-- A writer and a reader that belong together. -/
structure Codec (β : Type) where
  write : β → Json
  read : Decoder β
  /-- The doubles of a value. None that is written can be missing, as `spelled` is about each. -/
  floats : β → List Float
  /-- Whether the natural numbers of a value have no more bits than their fields. -/
  fits : β → Bool
  spelled : ∀ {P v}, (∀ x ∈ floats v, x.isFinite = true ∧ P x) → fits v = true → (write v).Spelled P
  read_write : ∀ {place v}, (∀ x ∈ floats v, x.isFinite = true) → fits v = true →
    (write v).depth ≤ place.room → read place (write v) = some v
  of_read : ∀ {place j v}, read place j = some v →
    (∀ x ∈ floats v, x.isFinite = true) ∧ fits v = true ∧ (write v).depth ≤ place.room

namespace Codec

variable {β γ : Type}

section Leaves

def bool : Codec Bool where
  write := .bool
  read := .bool
  floats _ := []
  fits _ := true
  spelled _ _ := .bool _
  read_write _ _ _ := rfl
  of_read _ := ⟨nofun, rfl, Nat.zero_le _⟩

def text : Codec String where
  write := .text
  read := .text
  floats _ := []
  fits _ := true
  spelled _ _ := .string _
  read_write _ _ _ := rfl
  of_read _ := ⟨nofun, rfl, Nat.zero_le _⟩

def float : Codec Float where
  write := .float
  read := .float
  floats x := [x]
  fits _ := true
  spelled {P x} hx _ := by
    obtain ⟨hfinite, hP⟩ := hx x List.mem_cons_self
    rw [Json.float, if_pos hfinite]
    exact .float hfinite hP
  read_write {place x} hx _ _ := by
    have hfinite := hx x List.mem_cons_self
    rw [Json.float, if_pos hfinite]
    simp [Decoder.float, Number.toFloat, hfinite]
  of_read {place j x} h := by
    unfold Decoder.float at h
    split at h
    · next n =>
      split at h
      · next hfinite =>
        obtain rfl := Option.some.inj h
        simp [hfinite, Json.float, depth]
      · cases h
    · cases h

def natural (bound : ℕ) (hbound : bound ≤ wordBound) : Codec ℕ where
  write := .natural
  read := .natural bound
  floats _ := []
  fits n := decide (n < bound)
  spelled _ hn := .natural (Nat.lt_of_lt_of_le (of_decide_eq_true hn) hbound)
  read_write _ hn _ := if_pos (of_decide_eq_true hn)
  of_read {place j n} h := by
    unfold Decoder.natural at h
    split at h
    · split at h
      · next hn =>
        obtain rfl := Option.some.inj h
        simp [hn, Json.natural, depth]
      · cases h
    · cases h

def count : Codec ℕ := natural wordBound (Nat.le_refl _)

theorem text_read_null (place : Place) : text.read place .null = none := rfl

theorem float_read_null (place : Place) : float.read place .null = none := rfl

theorem count_read_null (place : Place) : count.read place .null = none := rfl

/-- Values with names, any of which may be read. -/
def named (names : List (String × β)) (write : β → Json)
    (h : ∀ v, ∃ name, write v = .text name ∧ names.lookup name = some v) : Codec β where
  write := write
  read := .named names
  floats _ := []
  fits _ := true
  spelled {P v} _ _ := by
    obtain ⟨name, hname, -⟩ := h v
    rw [hname]
    exact .string name
  read_write {place v} _ _ _ := by
    obtain ⟨name, hname, hlookup⟩ := h v
    rw [hname]
    exact hlookup
  of_read {place j v} _ := by
    obtain ⟨name, hname, -⟩ := h v
    rw [hname]
    exact ⟨nofun, rfl, Nat.zero_le _⟩

end Leaves

section Combinators

variable (c : Codec β)

def list : Codec (List β) where
  write := .list c.write
  read := .list c.read
  floats vs := vs.flatMap c.floats
  fits vs := vs.all c.fits
  spelled {P vs} hvs hfits := by
    refine .array fun j hj => ?_
    obtain ⟨v, hv, rfl⟩ := List.mem_map.mp hj
    exact c.spelled (fun x hx => hvs x (List.mem_flatMap.mpr ⟨v, hv, hx⟩))
      (List.all_eq_true.mp hfits v hv)
  read_write {place vs} hvs hfits hdepth := by
    rw [Json.list, depth] at hdepth
    obtain ⟨inside, hinside, hroom, -⟩ := Place.inside?_of_depth hdepth
    have hread : (vs.map c.write).mapM (c.read inside) = some vs := by
      refine mapM_map fun v hv => ?_
      exact c.read_write (fun x hx => hvs x (List.mem_flatMap.mpr ⟨v, hv, hx⟩))
        (List.all_eq_true.mp hfits v hv)
        (depthElements_le.mp hroom _ (List.mem_map_of_mem hv))
    rw [Json.list, Decoder.list, hinside]
    exact hread
  of_read {place j vs} h := by
    unfold Decoder.list at h
    split at h
    · simp only [Option.bind_eq_bind, Option.bind_eq_some_iff] at h
      obtain ⟨inside, hinside, h⟩ := h
      have hall := fun v hv => (exists_of_mapM h v hv).elim fun _ hj => c.of_read hj.2
      rw [Json.list, depth, Place.room_eq hinside, Nat.add_le_add_iff_right, depthElements_le,
        List.forall_mem_map]
      refine ⟨fun x hx => ?_, List.all_eq_true.mpr fun v hv => (hall v hv).2.1,
        fun v hv => (hall v hv).2.2⟩
      obtain ⟨v, hv, hx⟩ := List.mem_flatMap.mp hx
      exact (hall v hv).1 x hx
    · cases h

/-- Nothing is null, which nothing else may be written as. -/
def option (hnull : ∀ place, c.read place .null = none) : Codec (Option β) where
  write := .option c.write
  read := .optional c.read
  floats v := v.elim [] c.floats
  fits v := v.all c.fits
  spelled {P v} hv hfits := by
    cases v with
    | none => exact .null
    | some v => exact c.spelled hv hfits
  read_write {place v} hv hfits hdepth := by
    cases v with
    | none => rfl
    | some v =>
      have hread := c.read_write hv hfits hdepth
      rw [Json.option, Decoder.optional, hread]
      · rfl
      · intro hwrite
        rw [hwrite, hnull] at hread
        cases hread
  of_read {place j v} h := by
    unfold Decoder.optional at h
    split at h
    · obtain rfl := Option.some.inj h
      exact ⟨nofun, rfl, Nat.zero_le _⟩
    · obtain ⟨w, hw, rfl⟩ := Option.map_eq_some_iff.mp h
      exact c.of_read hw

/-- A codec of values that have a part with a codec and are made from that part. -/
def copy (write : γ → Json) (read : Decoder γ) (part : γ → β) (make : β → Option γ)
    (hwrite : ∀ v, write v = c.write (part v))
    (hread : ∀ place j, read place j = (c.read place j).bind make)
    (hmake : ∀ v, make (part v) = some v) (hpart : ∀ {w v}, make w = some v → part v = w) :
    Codec γ where
  write := write
  read := read
  floats v := c.floats (part v)
  fits v := c.fits (part v)
  spelled {P v} hv hfits := by
    rw [hwrite]
    exact c.spelled hv hfits
  read_write {place v} hv hfits hdepth := by
    rw [hwrite] at hdepth ⊢
    rw [hread, c.read_write hv hfits hdepth]
    exact hmake v
  of_read {place j v} h := by
    rw [hread, Option.bind_eq_some_iff] at h
    obtain ⟨w, hw, hv⟩ := h
    rw [hwrite, hpart hv]
    exact c.of_read hw

end Combinators

end Codec

end Json

end LinearProgram

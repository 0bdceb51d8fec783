import LinearProgram.Proofs.Json.Shapes
import LinearProgram.Shape.Program

/-! # Codecs of programs

Statements and expressions are objects whose only field names the kind. Expressions nest, and their
codec is proved by induction: on the expression for what is written, on the room for what is read.
-/

namespace LinearProgram

open Json (Codec FieldsCodec Place)

def Span.codec : Codec Span :=
  (FieldsCodec.cons "start" Codec.count.required <| .cons "end" Codec.count.required .nil).record
    [["start"], ["end"]] toJson ofJson (fun s => (s.start, s.stop, ()))
    (fun (start, stop, _) => ⟨start, stop⟩)
    (by decide) (fun _ => rfl) (fun _ _ => rfl) (fun _ => rfl) (fun _ => rfl)

def Operator.codec : Codec Operator :=
  .named jsonNames toJson (by rintro ⟨⟩ <;> exact ⟨_, rfl, rfl⟩)

def Variable.codec : Codec Variable :=
  (FieldsCodec.cons "span" Span.codec.required <| .cons "name" Codec.text.required .nil).record
    [["span"], ["name"]] toJson ofJson (fun v => (v.span, v.name, ()))
    (fun (span, name, _) => ⟨span, name⟩)
    (by decide) (fun _ => rfl) (fun _ _ => rfl) (fun _ => rfl) (fun _ => rfl)

namespace Expr

def floats : Expr Float → List Float
  | number x => [x]
  | var _ => []
  | neg e => e.floats
  | paren e => e.floats
  | binary left _ right => left.floats ++ right.floats

/-- Whether all positions in the expression have 64 bits. -/
def fits : Expr Float → Bool
  | number _ => true
  | var v => Variable.codec.fits v
  | neg e => e.fits
  | paren e => e.fits
  | binary left _ right => left.fits && right.fits

theorem depth_operands {left op right : Json} {n : ℕ} :
    (Json.record [("left", left), ("op", op), ("right", right)]).depth ≤ n + 1 ↔
      left.depth ≤ n ∧ op.depth ≤ n ∧ right.depth ≤ n := by
  simp [Json.record, Json.depth, Json.depthFields]

theorem spelled_toJson {P : Float → Prop} {e : Expr Float}
    (he : ∀ x ∈ e.floats, x.isFinite = true ∧ P x) (hfits : e.fits = true) :
    e.toJson.Spelled P := by
  induction e with
  | number x => exact Json.spelled_single (Codec.float.spelled he rfl) _
  | var v => exact Json.spelled_single (Variable.codec.spelled nofun hfits) _
  | neg e ih => exact Json.spelled_single (ih he hfits) _
  | paren e ih => exact Json.spelled_single (ih he hfits) _
  | binary left op right ihleft ihright =>
    rw [floats, List.forall_mem_append] at he
    rw [fits, Bool.and_eq_true] at hfits
    refine Json.spelled_single (.object (by simp) ?_) _
    have hop : op.toJson.Spelled P := Operator.codec.spelled nofun rfl
    simpa using ⟨ihleft he.1 hfits.1, hop, ihright he.2 hfits.2⟩

theorem room_of_single {name : String} {j : Json} {room : ℕ}
    (h : (Json.record [(name, j)]).depth ≤ room) :
    ∃ inside, room = inside + 1 ∧ j.depth ≤ inside := by
  rw [Json.depth_single] at h
  exact ⟨room - 1, by omega, by omega⟩

theorem ofJsonWithin_toJson {e : Expr Float} (he : ∀ x ∈ e.floats, x.isFinite = true)
    (hfits : e.fits = true) (early : Bool) {room : ℕ} (hdepth : e.toJson.depth ≤ room) :
    ofJsonWithin early room e.toJson = some e := by
  induction e generalizing room with
  | number x =>
    obtain ⟨room, rfl, hroom⟩ := room_of_single hdepth
    have hx : Json.Decoder.float ⟨room, early⟩ (.float x) = some x :=
      Codec.float.read_write he rfl hroom
    rw [toJson, ofJsonWithin]
    exact congrArg (Option.map number) hx
  | var v =>
    obtain ⟨room, rfl, hroom⟩ := room_of_single hdepth
    have hv : Variable.ofJson ⟨room, early⟩ v.toJson = some v :=
      Variable.codec.read_write nofun hfits hroom
    rw [toJson, ofJsonWithin]
    exact congrArg (Option.map var) hv
  | neg e ih =>
    obtain ⟨room, rfl, hroom⟩ := room_of_single hdepth
    rw [toJson, ofJsonWithin]
    exact congrArg (Option.map neg) (ih he hfits hroom)
  | paren e ih =>
    obtain ⟨room, rfl, hroom⟩ := room_of_single hdepth
    rw [toJson, ofJsonWithin]
    exact congrArg (Option.map paren) (ih he hfits hroom)
  | binary left op right ihleft ihright =>
    obtain ⟨room, rfl, hroom⟩ := room_of_single hdepth
    rw [floats, List.forall_mem_append] at he
    rw [fits, Bool.and_eq_true] at hfits
    obtain ⟨room, rfl⟩ := Nat.exists_eq_add_of_le' (Nat.le_trans (Nat.le_add_left 1 _) hroom)
    obtain ⟨hleft, -, hright⟩ := depth_operands.mp hroom
    have hop : Operator.ofJson ⟨room, early⟩ op.toJson = some op :=
      Operator.codec.read_write nofun rfl (by cases op <;> exact Nat.zero_le room)
    have hfields : Json.fields? [["left"], ["op"], ["right"]] ⟨room + 1, early⟩
        (.record [("left", left.toJson), ("op", op.toJson), ("right", right.toJson)]) =
          some ⟨[("left", left.toJson), ("op", op.toJson), ("right", right.toJson)], room, early⟩ :=
      @Json.fields?_record _ _ _
        [("left", some left.toJson), ("op", some op.toJson), ("right", some right.toJson)] rfl
        (by decide : Json.FirstNames [["left"], ["op"], ["right"]] ["left", "op", "right"])
    rw [toJson, ofJsonWithin]
    change ((Json.fields? [["left"], ["op"], ["right"]] ⟨room + 1, early⟩ (.record
      [("left", left.toJson), ("op", op.toJson), ("right", right.toJson)])).bind fun f =>
      (f.found.lookup "left").bind fun left => (ofJsonWithin early room left).bind fun left =>
        (f.required "op" Operator.ofJson).bind fun op =>
          (f.found.lookup "right").bind fun right =>
            (ofJsonWithin early room right).bind fun right => some (binary left op right)) = _
    rw [hfields]
    change ((ofJsonWithin early room left.toJson).bind fun left =>
      (Operator.ofJson ⟨room, early⟩ op.toJson).bind fun op =>
        (ofJsonWithin early room right.toJson).bind fun right => some (binary left op right)) = _
    rw [ihleft he.1 hfits.1 hleft, hop, ihright he.2 hfits.2 hright]
    rfl

theorem of_ofJsonWithin {early : Bool} {room : ℕ} {j : Json} {e : Expr Float}
    (h : ofJsonWithin early room j = some e) :
    (∀ x ∈ e.floats, x.isFinite = true) ∧ e.fits = true ∧ e.toJson.depth ≤ room := by
  induction room, j using ofJsonWithin.induct generalizing e with
  | case1 j => cases h
  | case2 room j ih ih' =>
    rw [ofJsonWithin, Option.bind_eq_bind, Option.bind_eq_some_iff] at h
    obtain ⟨⟨inside, name, value⟩, hsingle, h⟩ := h
    obtain rfl := Option.some.inj (Json.inside_of_single hsingle)
    dsimp only at h
    split at h
    · obtain ⟨x, hx, rfl⟩ := Option.map_eq_some_iff.mp h
      obtain ⟨hfloats, hfits, hdepth⟩ := Codec.float.of_read hx
      exact ⟨hfloats, hfits, (Json.depth_single _ _).le.trans (Nat.succ_le_succ hdepth)⟩
    · obtain ⟨v, hv, rfl⟩ := Option.map_eq_some_iff.mp h
      obtain ⟨-, hfits, hdepth⟩ := Variable.codec.of_read hv
      exact ⟨nofun, hfits, (Json.depth_single _ _).le.trans (Nat.succ_le_succ hdepth)⟩
    · obtain ⟨e, he, rfl⟩ := Option.map_eq_some_iff.mp h
      obtain ⟨hfloats, hfits, hdepth⟩ := ih value he
      exact ⟨hfloats, hfits, (Json.depth_single _ _).le.trans (Nat.succ_le_succ hdepth)⟩
    · obtain ⟨e, he, rfl⟩ := Option.map_eq_some_iff.mp h
      obtain ⟨hfloats, hfits, hdepth⟩ := ih value he
      exact ⟨hfloats, hfits, (Json.depth_single _ _).le.trans (Nat.succ_le_succ hdepth)⟩
    · cases room with
      | zero => cases h
      | succ room =>
        simp only [Option.bind_eq_bind, Option.bind_eq_some_iff] at h
        obtain ⟨f, hf, left, -, left', hleft, op, hop, right, -, right', hright, h⟩ := h
        obtain rfl := Option.some.inj h
        obtain ⟨ihleft, ihright⟩ := ih'
        obtain ⟨hfloats, hfits, hdepth⟩ := ihleft left hleft
        obtain ⟨hfloats', hfits', hdepth'⟩ := ihright right hright
        refine ⟨List.forall_mem_append.mpr ⟨hfloats, hfloats'⟩, by simp [fits, hfits, hfits'], ?_⟩
        rw [toJson, Json.depth_single]
        refine Nat.succ_le_succ (depth_operands.mpr ⟨hdepth, ?_, hdepth'⟩)
        cases op <;> exact Nat.zero_le room
    · cases h

def codec : Codec (Expr Float) where
  write := toJson
  read := ofJson
  floats := floats
  fits := fits
  spelled := spelled_toJson
  read_write he hfits hdepth := ofJsonWithin_toJson he hfits _ hdepth
  of_read := of_ofJsonWithin

end Expr

def ObjectiveStatement.codec : Codec (ObjectiveStatement Float) :=
  (FieldsCodec.cons "span" Span.codec.required <| .cons "sense" Sense.codec.required <|
    .cons "name" (Codec.text.optional Codec.text_read_null) <|
    .cons "expr" Expr.codec.required .nil).record
    [["span"], ["sense"], ["name"], ["expr"]] toJson ofJson
    (fun o => (o.span, o.sense, o.name, o.expr, ()))
    (fun (span, sense, name, expr, _) => ⟨span, sense, name, expr⟩)
    (by decide) (fun _ => rfl) (fun _ _ => rfl) (fun _ => rfl) (fun _ => rfl)

def ConstraintStatement.codec : Codec (ConstraintStatement Float) :=
  (FieldsCodec.cons "span" Span.codec.required <| .cons "lhs" Expr.codec.required <|
    .cons "relation" Relation.codec.required <| .cons "rhs" Expr.codec.required .nil).record
    [["span"], ["lhs"], ["relation"], ["rhs"]] toJson ofJson
    (fun c => (c.span, c.lhs, c.relation, c.rhs, ()))
    (fun (span, lhs, relation, rhs, _) => ⟨span, lhs, relation, rhs⟩)
    (by decide) (fun _ => rfl) (fun _ _ => rfl) (fun _ => rfl) (fun _ => rfl)

def Statement.codec : Codec (Statement Float) where
  write := toJson
  read := ofJson
  floats
    | objective o => ObjectiveStatement.codec.floats o
    | constraint c => ConstraintStatement.codec.floats c
  fits
    | objective o => ObjectiveStatement.codec.fits o
    | constraint c => ConstraintStatement.codec.fits c
  spelled {P s} hs hfits := by
    cases s with
    | objective o => exact Json.spelled_single (ObjectiveStatement.codec.spelled hs hfits) _
    | constraint c => exact Json.spelled_single (ConstraintStatement.codec.spelled hs hfits) _
  read_write {place s} hs hfits hdepth := by
    cases s with
    | objective o =>
      obtain ⟨inside, hsingle, hroom⟩ := Json.exists_single hdepth
      rw [toJson, ofJson, hsingle]
      exact congrArg (Option.map objective) (ObjectiveStatement.codec.read_write hs hfits hroom)
    | constraint c =>
      obtain ⟨inside, hsingle, hroom⟩ := Json.exists_single hdepth
      rw [toJson, ofJson, hsingle]
      exact congrArg (Option.map constraint) (ConstraintStatement.codec.read_write hs hfits hroom)
  of_read {place j s} h := by
    simp only [ofJson, Option.bind_eq_bind, Option.bind_eq_some_iff] at h
    obtain ⟨⟨inside, name, value⟩, hsingle, h⟩ := h
    rw [Place.room_eq (Json.inside_of_single hsingle)]
    dsimp only at h
    split at h
    · obtain ⟨o, ho, rfl⟩ := Option.map_eq_some_iff.mp h
      obtain ⟨hfloats, hfits, hdepth⟩ := ObjectiveStatement.codec.of_read ho
      exact ⟨hfloats, hfits, (Json.depth_single _ _).le.trans (Nat.succ_le_succ hdepth)⟩
    · obtain ⟨c, hc, rfl⟩ := Option.map_eq_some_iff.mp h
      obtain ⟨hfloats, hfits, hdepth⟩ := ConstraintStatement.codec.of_read hc
      exact ⟨hfloats, hfits, (Json.depth_single _ _).le.trans (Nat.succ_le_succ hdepth)⟩
    · cases h

def Program.codec : Codec (Program Float) :=
  (FieldsCodec.cons "statements" Statement.codec.list.required .nil).record
    [["statements"]] toJson ofJson (fun p => (p.statements, ()))
    (fun (statements, _) => ⟨statements⟩)
    (by decide) (fun _ => rfl) (fun _ _ => rfl) (fun _ => rfl) (fun _ => rfl)

namespace Terms

theorem entries_injective {α : Type} {ts us : Terms α} (h : ts.entries = us.entries) : ts = us := by
  cases ts
  cases us
  cases h
  rfl

/-- A name behind all others is added at the end. -/
theorem alterEntries_of_lt {α : Type} {name : String} {f : Option α → α}
    {entries : List (String × α)} (h : ∀ e ∈ entries, e.1 < name) :
    alterEntries name f entries = entries ++ [(name, f none)] := by
  induction entries with
  | nil => rfl
  | cons e entries ih =>
    obtain ⟨hlt, h⟩ := List.forall_mem_cons.mp h
    rw [alterEntries, if_neg (String.lt_asymm hlt), if_pos hlt, ih h]
    rfl

/-- Entries that stand in the order of their names are collected as they are. -/
theorem ofList_entries {α : Type} (ts : Terms α) : ofList ts.entries = ts := by
  have hfold : ∀ (us : Terms α) (entries : List (String × α)),
      (us.entries ++ entries).Pairwise (fun a b => a.1 < b.1) →
      (entries.foldl (fun us e => us.alter e.1 fun _ => e.2) us).entries =
        us.entries ++ entries := by
    intro us entries h
    induction entries generalizing us with
    | nil => exact (List.append_nil _).symm
    | cons e entries ih =>
      have hlast : ∀ e' ∈ us.entries, e'.1 < e.1 := fun e' he' =>
        (List.pairwise_append.mp h).2.2 e' he' e List.mem_cons_self
      have halter : (us.alter e.1 fun _ => e.2).entries = us.entries ++ [e] :=
        alterEntries_of_lt hlast
      rw [List.append_cons] at h ⊢
      rw [← halter] at h ⊢
      exact ih _ h
  exact entries_injective (hfold empty ts.entries ts.sorted)

theorem forall_alterEntries {α : Type} {P : α → Prop} {name : String} {x : α} (hx : P x)
    {entries : List (String × α)} (h : ∀ e ∈ entries, P e.2) :
    ∀ e ∈ alterEntries name (fun _ => x) entries, P e.2 := by
  fun_induction alterEntries name (fun _ => x) entries with
  | case1 => simpa using hx
  | case2 n y rest _ => exact List.forall_mem_cons.mpr ⟨hx, h⟩
  | case3 n y rest _ _ ih =>
    obtain ⟨hy, h⟩ := List.forall_mem_cons.mp h
    exact List.forall_mem_cons.mpr ⟨hy, ih h⟩
  | case4 n y rest _ _ => exact List.forall_mem_cons.mpr ⟨hx, (List.forall_mem_cons.mp h).2⟩

theorem forall_ofList {α : Type} {P : α → Prop} {entries : List (String × α)}
    (h : ∀ e ∈ entries, P e.2) : ∀ e ∈ (ofList entries).entries, P e.2 := by
  have hfold : ∀ us : Terms α, (∀ e ∈ us.entries, P e.2) →
      ∀ e ∈ (entries.foldl (fun us e => us.alter e.1 fun _ => e.2) us).entries, P e.2 := by
    induction entries with
    | nil => exact fun us hus => hus
    | cons e entries ih =>
      obtain ⟨he, h⟩ := List.forall_mem_cons.mp h
      exact fun us hus => ih h _ (forall_alterEntries he hus)
  exact hfold empty fun _ he => absurd he List.not_mem_nil

theorem depth_entries (entries : List (String × Float)) (n : ℕ) :
    (Json.record (entries.map fun (name, x) => (name, .float x))).depth ≤ n + 1 := by
  rw [Json.record, Json.depth, Nat.add_le_add_iff_right, Json.depthFields_le]
  refine List.forall_mem_map.mpr (List.forall_mem_map.mpr fun e _ => ?_)
  exact (Json.depth_float e.2).le.trans (Nat.zero_le n)

def codec : Codec (Terms Float) where
  write ts := .record (ts.entries.map fun (name, x) => (name, .float x))
  read place j := (Json.Decoder.entries .float place j).map ofList
  floats ts := ts.entries.map Prod.snd
  fits _ := true
  spelled {P ts} hts _ := by
    refine .object (List.forall_mem_map.mpr fun _ _ => rfl)
      (List.forall_mem_map.mpr (List.forall_mem_map.mpr fun e he => ?_))
    exact Codec.float.spelled (List.forall_mem_singleton.mpr (List.forall_mem_map.mp hts e he)) rfl
  read_write {place ts} hts _ hdepth := by
    obtain ⟨inside, hinside, -, -⟩ :=
      Place.inside?_of_depth (Nat.le_trans (Nat.le_add_left 1 _) hdepth)
    have hread : ∀ e ∈ ts.entries, Json.Decoder.float inside (.float e.2) = some e.2 := by
      intro e he
      exact Codec.float.read_write (List.forall_mem_singleton.mpr (List.forall_mem_map.mp hts e he))
        rfl ((Json.depth_float e.2).le.trans (Nat.zero_le _))
    have hentries : Json.Decoder.entries .float place
        (.record (ts.entries.map fun (name, x) => (name, .float x))) = some ts.entries := by
      rw [Json.record, List.map_map, Json.Decoder.entries, hinside]
      refine Json.mapM_map fun e he => ?_
      simp [hread e he]
    rw [hentries]
    exact congrArg some (ofList_entries ts)
  of_read {place j ts} h := by
    obtain ⟨entries, hentries, rfl⟩ := Option.map_eq_some_iff.mp h
    unfold Json.Decoder.entries at hentries
    split at hentries
    · simp only [Option.bind_eq_bind, Option.bind_eq_some_iff] at hentries
      obtain ⟨inside, hinside, hentries⟩ := hentries
      have hfinite : ∀ e ∈ entries, e.2.isFinite = true := by
        intro e he
        obtain ⟨f, -, hf⟩ := Json.exists_of_mapM hentries e he
        simp only [Option.bind_eq_some_iff] at hf
        obtain ⟨name, -, x, hx, hf⟩ := hf
        cases hf
        exact (Codec.float.of_read hx).1 x List.mem_cons_self
      have hcollected := @forall_ofList _ (Float.isFinite · = true) _ hfinite
      refine ⟨List.forall_mem_map.mpr hcollected, rfl, ?_⟩
      rw [Place.room_eq hinside]
      exact depth_entries _ _
    · cases hentries

end Terms

def LinearForm.codec : Codec (LinearForm Float) :=
  (FieldsCodec.cons "terms" Terms.codec.required <|
    .cons "constant" Codec.float.required .nil).record
    [["terms"], ["constant"]] toJson ofJson (fun f => (f.terms, f.constant, ()))
    (fun (terms, constant, _) => ⟨terms, constant⟩)
    (by decide) (fun _ => rfl) (fun place j => by
      refine Option.bind_congr fun f _ => ?_
      change ((f.found.lookup "terms").bind _).bind _ = ((f.found.lookup "terms").bind _).bind _
      rw [Option.bind_assoc, Option.bind_assoc]
      refine Option.bind_congr fun terms _ => ?_
      change _ = ((Json.Decoder.entries .float f.place terms).map Terms.ofList).bind _
      rw [Option.bind_map]
      rfl) (fun _ => rfl) (fun _ => rfl)

def CompiledProblem.codec : Codec (CompiledProblem Float) :=
  (FieldsCodec.cons "variables" Codec.text.list.required <|
    .cons "objective_name" (Codec.text.optional Codec.text_read_null) <|
    .cons "problem" Problem.codec.required .nil).record
    [["variables"], ["objective_name"], ["problem"]] toJson ofJson
    (fun c => (c.names, c.objectiveName, c.problem, ()))
    (fun (names, objectiveName, problem, _) => ⟨names, objectiveName, problem⟩)
    (by decide) (fun _ => rfl) (fun _ _ => rfl) (fun _ => rfl) (fun _ => rfl)

end LinearProgram

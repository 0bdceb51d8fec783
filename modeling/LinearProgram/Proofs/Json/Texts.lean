import LinearProgram.Proofs.Json.Numerals
import LinearProgram.Proofs.Json.Strings

/-! # Values in JSON texts

The text of a value is read as the value with every double as it is read from its own text, if the
strings are strings of characters and the natural numbers fit into 64 bits. If the doubles are read
back one by one, that is the value.
-/

namespace LinearProgram

namespace Json

/-- A value that a text can spell, in which every double has a property. -/
inductive Spelled (P : Float → Prop) : Json → Prop
  | null : Spelled P .null
  | bool (b : Bool) : Spelled P (.bool b)
  | natural {n : ℕ} : n < wordBound → Spelled P (.number (.natural n))
  | float {x : Float} : x.isFinite = true → P x → Spelled P (.number (.float x))
  | string (s : String) : Spelled P (.string (some s))
  | array {elements : List Json} : (∀ j ∈ elements, Spelled P j) → Spelled P (.array elements)
  | object {fields : List (Option String × Json)} : (∀ f ∈ fields, f.1.isSome = true) →
      (∀ f ∈ fields, Spelled P f.2) → Spelled P (.object fields)

section MapFloats

variable (g : Float → Float)

mutual

/-- The value with other doubles. -/
def mapFloats : Json → Json
  | number (.float x) => number (.float (g x))
  | array elements => array (mapElements elements)
  | object fields => object (mapFields fields)
  | j => j

def mapElements : List Json → List Json
  | [] => []
  | j :: rest => mapFloats j :: mapElements rest

def mapFields : List (Option String × Json) → List (Option String × Json)
  | [] => []
  | (name, j) :: rest => (name, mapFloats j) :: mapFields rest

end

theorem mapElements_eq (elements : List Json) :
    mapElements g elements = elements.map (mapFloats g) := by
  induction elements with
  | nil => rfl
  | cons j rest ih => rw [mapElements, ih, List.map_cons]

theorem mapFields_eq (fields : List (Option String × Json)) :
    mapFields g fields = fields.map fun f => (f.1, f.2.mapFloats g) := by
  induction fields with
  | nil => rfl
  | cons f rest ih => rw [mapFields, ih, List.map_cons]

theorem mapFloats_array (elements : List Json) :
    (array elements).mapFloats g = array (elements.map (mapFloats g)) := by
  rw [mapFloats, mapElements_eq]

theorem mapFloats_object (fields : List (Option String × Json)) :
    (object fields).mapFloats g = object (fields.map fun f => (f.1, f.2.mapFloats g)) := by
  rw [mapFloats, mapFields_eq]

theorem mapFloats_id {P : Float → Prop} {j : Json} (h : Spelled P j) : j.mapFloats id = j := by
  induction h with
  | null | bool | natural | float | string => rfl
  | array _ ih =>
    rw [mapFloats_array, List.map_congr_left ih]
    simp
  | object _ _ ih =>
    rw [mapFloats_object, List.map_congr_left fun f hf => congrArg (Prod.mk f.1) (ih f hf)]
    simp

end MapFloats

namespace Reader

variable {round : Numeral → Float} {g : Float → Float} {cs rest rest' left : List Char} {j : Json}
  {js : List Json} {fields : List (Option String × Json)}

section Values

theorem reads_string {s : Option String} (h : skipBlanks cs = '"' :: rest)
    (hs : Reads (string rest) s rest') : Reads (value round cs) (.string s) rest' := by
  obtain ⟨p, hp, rfl, rfl⟩ := hs
  rw [value]
  split
  · next rest'' h' =>
    rw [h] at h'
    obtain ⟨-, rfl⟩ := List.cons.inj h'
    rw [hp]
    exact ⟨_, rfl, rfl, rfl⟩
  all_goals simp_all

/-- An array is closed at once or holds elements. -/
theorem reads_array (h : skipBlanks cs = '[' :: rest)
    (hs : skipBlanks rest = ']' :: rest' ∧ js = [] ∨
      (skipBlanks rest).head? ≠ some ']' ∧ Reads (elements round rest) js rest') :
    Reads (value round cs) (.array js) rest' := by
  rw [value]
  split
  case h_2 more h' =>
    rw [h] at h'
    obtain ⟨-, rfl⟩ := List.cons.inj h'
    obtain ⟨hend, rfl⟩ | ⟨hne, p, hp, rfl, rfl⟩ := hs
    · split
      · next h' =>
        rw [hend] at h'
        obtain ⟨-, rfl⟩ := List.cons.inj h'
        exact ⟨_, rfl, rfl, rfl⟩
      · simp_all
    · split
      · simp_all
      · rw [hp]
        exact ⟨_, rfl, rfl, rfl⟩
  all_goals simp_all

/-- An object is closed at once or holds fields. -/
theorem reads_object (h : skipBlanks cs = '\x7b' :: rest)
    (hs : skipBlanks rest = '\x7d' :: rest' ∧ fields = [] ∨
      (skipBlanks rest).head? ≠ some '\x7d' ∧ Reads (members round rest) fields rest') :
    Reads (value round cs) (.object fields) rest' := by
  rw [value]
  split
  case h_3 more h' =>
    rw [h] at h'
    obtain ⟨-, rfl⟩ := List.cons.inj h'
    obtain ⟨hend, rfl⟩ | ⟨hne, p, hp, rfl, rfl⟩ := hs
    · split
      · next h' =>
        rw [hend] at h'
        obtain ⟨-, rfl⟩ := List.cons.inj h'
        exact ⟨_, rfl, rfl, rfl⟩
      · simp_all
    · split
      · simp_all
      · rw [hp]
        exact ⟨_, rfl, rfl, rfl⟩
  all_goals simp_all

theorem reads_scalar (hne : ∀ c ∈ (skipBlanks cs).head?, c ∉ ['"', '[', '\x7b'])
    (hs : Reads (scalar round (skipBlanks cs)) j rest) : Reads (value round cs) j rest := by
  have hcons : ∀ c more, skipBlanks cs = c :: more → c ∉ ['"', '[', '\x7b'] := by
    intro c more h
    exact hne c (by rw [h]; rfl)
  obtain ⟨p, hp, rfl, rfl⟩ := hs
  rw [value]
  split
  · next h => exact absurd (by decide) (hcons _ _ h)
  · next h => exact absurd (by decide) (hcons _ _ h)
  · next h => exact absurd (by decide) (hcons _ _ h)
  · rw [hp]
    exact ⟨_, rfl, rfl, rfl⟩

theorem reads_number (h : BeginsNumber cs) {q : Numeral} (hq : numeral? cs = some (q, rest)) :
    Reads (scalar round cs) (.number (q.number round)) rest := by
  obtain ⟨c, more, rfl, hc⟩ := h
  have hletter : ∀ d ∈ ['n', 't', 'f'], c ≠ d := by
    rintro d hd rfl
    exact (by simp : ∀ d ∈ ['n', 't', 'f'], ¬(d.isDigit = true ∨ d = '-')) c hd hc
  rw [scalar]
  case x | x_1 | x_2 => simp_all
  split
  · next hnone =>
    rw [hq] at hnone
    cases hnone
  · next q' left hsome =>
    rw [hq] at hsome
    obtain ⟨rfl, rfl⟩ := Prod.mk.inj (Option.some.inj hsome)
    exact ⟨_, rfl, rfl, rfl⟩

/-- An element, and those behind a comma if a comma follows. -/
theorem reads_elements (hv : Reads (value round cs) j rest)
    (hrest : skipBlanks rest = ']' :: left ∧ js = [] ∨
      ∃ rest', skipBlanks rest = ',' :: rest' ∧ Reads (elements round rest') js left) :
    Reads (elements round cs) (j :: js) left := by
  obtain ⟨p, hp, rfl, rfl⟩ := hv
  rw [elements, hp]
  simp only [Option.bind_eq_bind, Option.bind_some]
  obtain ⟨hend, rfl⟩ | ⟨rest', hcomma, more, hmore, rfl, rfl⟩ := hrest
  · split
    · simp_all
    · next h =>
      rw [hend] at h
      obtain ⟨-, rfl⟩ := List.cons.inj h
      exact ⟨_, rfl, rfl, rfl⟩
    · simp_all
  · split
    · next h =>
      rw [hcomma] at h
      obtain ⟨-, rfl⟩ := List.cons.inj h
      rw [hmore]
      exact ⟨_, rfl, rfl, rfl⟩
    · simp_all
    · simp_all

/-- A field, and those behind a comma if a comma follows. -/
theorem reads_members {name : Option String} {behind colon : List Char}
    (h : skipBlanks cs = '"' :: rest) (hname : Reads (string rest) name behind)
    (hcolon : skipBlanks behind = ':' :: colon) (hv : Reads (value round colon) j rest')
    (hrest : skipBlanks rest' = '\x7d' :: left ∧ fields = [] ∨
      ∃ more, skipBlanks rest' = ',' :: more ∧ Reads (members round more) fields left) :
    Reads (members round cs) ((name, j) :: fields) left := by
  obtain ⟨p, hp, rfl, rfl⟩ := hname
  obtain ⟨q, hq, rfl, rfl⟩ := hv
  rw [members]
  split
  · next h' =>
    rw [h] at h'
    obtain ⟨-, rfl⟩ := List.cons.inj h'
    rw [hp]
    simp only [Option.bind_eq_bind, Option.bind_some]
    split
    · next h' =>
      rw [hcolon] at h'
      obtain ⟨-, rfl⟩ := List.cons.inj h'
      rw [hq]
      simp only [Option.bind_some]
      obtain ⟨hend, rfl⟩ | ⟨rest', hcomma, more, hmore, rfl, rfl⟩ := hrest
      · split
        · simp_all
        · next h' =>
          rw [hend] at h'
          obtain ⟨-, rfl⟩ := List.cons.inj h'
          exact ⟨_, rfl, rfl, rfl⟩
        · simp_all
      · split
        · next h' =>
          rw [hcomma] at h'
          obtain ⟨-, rfl⟩ := List.cons.inj h'
          rw [hmore]
          exact ⟨_, rfl, rfl, rfl⟩
        · simp_all
        · simp_all
    · simp_all
  · simp_all

end Values

/-- What a value begins with: neither a blank nor a closing bracket. -/
def Opens (cs : List Char) : Prop := ∃ c more, cs = c :: more ∧ isBlank c = false ∧ c ≠ ']'

theorem skipBlanks_cons {c : Char} (h : isBlank c = false) (rest : List Char) :
    skipBlanks (c :: rest) = c :: rest := by
  rw [skipBlanks, List.dropWhile_cons_of_neg (by simp [h])]

theorem Opens.skipBlanks_append (h : Opens cs) (rest : List Char) :
    skipBlanks (cs ++ rest) = cs ++ rest := by
  obtain ⟨c, more, rfl, hc, -⟩ := h
  exact skipBlanks_cons hc _

/-- The characters are read as the value wherever a value may end. -/
def Writes (round : Numeral → Float) (cs : List Char) (j : Json) : Prop :=
  Opens cs ∧ ∀ rest, Ends rest → Reads (value round (cs ++ rest)) j rest

theorem writes_scalar {c : Char} {more : List Char}
    (hc : isBlank c = false ∧ c ∉ ['"', '[', ']', '\x7b'])
    (h : ∀ rest, Ends rest → Reads (scalar round (c :: more ++ rest)) j rest) :
    Writes round (c :: more) j := by
  refine ⟨⟨c, more, rfl, hc.1, by simp_all⟩, fun rest hrest => ?_⟩
  have hskip : skipBlanks (c :: more ++ rest) = c :: more ++ rest := skipBlanks_cons hc.1 _
  refine reads_scalar ?_ ?_
  · rw [hskip]
    intro d hd
    obtain rfl := Option.some.inj hd
    simp_all
  · rw [hskip]
    exact h rest hrest

theorem writes_number {x y : Number} {q : Numeral} (h : BeginsNumber x.text.toList)
    (hq : ∀ rest, Ends rest → numeral? (x.text.toList ++ rest) = some (q, rest))
    (hy : q.number round = y) : Writes round (compact (.number x)).toList (.number y) := by
  obtain ⟨c, more, hcs, hc⟩ := h
  have hne : ∀ d ∈ [' ', '\n', '\t', '\r', '"', '[', ']', '\x7b'], c ≠ d := by
    rintro d hd rfl
    exact (by simp : ∀ d ∈ [' ', '\n', '\t', '\r', '"', '[', ']', '\x7b'],
      ¬(d.isDigit = true ∨ d = '-')) c hd hc
  rw [compact, hcs]
  rw [hcs] at hq
  refine writes_scalar (by simp_all [isBlank]) fun rest hrest => ?_
  have hread := @reads_number round _ _ ⟨c, more ++ rest, rfl, hc⟩ q (hq rest hrest)
  rwa [hy] at hread

theorem toList_quoted (s : String) :
    (quoted s).toList = '"' :: ((String.join (s.toList.map escape)).toList ++ ['"']) := by
  rw [quoted, String.toList_append, String.toList_append]
  rfl

theorem writes_string (s : String) :
    Writes round (compact (.string (some s))).toList (.string (some s)) := by
  rw [compact, quoted?, Option.getD_some, toList_quoted]
  refine ⟨⟨_, _, rfl, rfl, by decide⟩, fun rest _ => ?_⟩
  rw [List.cons_append, List.append_assoc]
  exact reads_string (skipBlanks_cons rfl _) (reads_quoted s rest)

/-- The elements of an array, separated by commas. -/
theorem reads_compactElements (j : Json) (js : List Json)
    (h : ∀ k ∈ j :: js, Writes round (compact k).toList (k.mapFloats g)) (rest : List Char) :
    Reads (elements round ((",".intercalate (compactElements (j :: js))).toList ++ ']' :: rest))
      ((j :: js).map (mapFloats g)) rest := by
  induction js generalizing j with
  | nil =>
    have hj := (h j List.mem_cons_self).2 (']' :: rest) (ends_cons (by decide) rest)
    rw [compactElements, compactElements, String.intercalate_singleton]
    exact reads_elements hj (Or.inl ⟨skipBlanks_cons rfl rest, rfl⟩)
  | cons k js ih =>
    have hmore := ih k (fun k hk => h k (List.mem_cons_of_mem _ hk))
    have hj := (h j List.mem_cons_self).2
    have htext : (",".intercalate (compactElements (j :: k :: js))).toList =
        (compact j).toList ++ ',' :: (",".intercalate (compactElements (k :: js))).toList := by
      simp [compactElements, String.intercalate_cons_cons]
    rw [htext, List.append_assoc]
    exact reads_elements (hj _ (ends_cons (by decide) _))
      (Or.inr ⟨_, skipBlanks_cons rfl _, hmore⟩)

theorem toList_member (s : String) (j : Json) (rest : List Char) :
    (quoted? (some s) ++ ":" ++ compact j).toList ++ rest =
      '"' :: ((String.join (s.toList.map escape)).toList ++
        '"' :: ':' :: ((compact j).toList ++ rest)) := by
  simp [quoted?, toList_quoted]

/-- The fields of an object, separated by commas. -/
theorem reads_compactFields (f : Option String × Json) (fields : List (Option String × Json))
    (h : ∀ e ∈ f :: fields, e.1.isSome = true ∧
      Writes round (compact e.2).toList (e.2.mapFloats g)) (rest : List Char) :
    Reads (members round ((",".intercalate (compactFields (f :: fields))).toList ++ '\x7d' :: rest))
      ((f :: fields).map fun e => (e.1, e.2.mapFloats g)) rest := by
  induction fields generalizing f with
  | nil =>
    obtain ⟨name, j⟩ := f
    obtain ⟨hname, -, hj⟩ := h _ List.mem_cons_self
    obtain ⟨s, rfl⟩ := Option.isSome_iff_exists.mp hname
    rw [compactFields, compactFields, String.intercalate_singleton, toList_member]
    exact reads_members (skipBlanks_cons rfl _) (reads_quoted s _) (skipBlanks_cons rfl _)
      (hj _ (ends_cons (by decide) rest)) (Or.inl ⟨skipBlanks_cons rfl rest, rfl⟩)
  | cons e fields ih =>
    have hmore := ih e (fun e he => h e (List.mem_cons_of_mem _ he))
    obtain ⟨name, j⟩ := f
    obtain ⟨hname, -, hj⟩ := h _ List.mem_cons_self
    obtain ⟨s, rfl⟩ := Option.isSome_iff_exists.mp hname
    have htext : (",".intercalate (compactFields ((some s, j) :: e :: fields))).toList =
        (quoted? (some s) ++ ":" ++ compact j).toList ++
          ',' :: (",".intercalate (compactFields (e :: fields))).toList := by
      simp [compactFields, String.intercalate_cons_cons]
    rw [htext, List.append_assoc, toList_member]
    exact reads_members (skipBlanks_cons rfl _) (reads_quoted s _) (skipBlanks_cons rfl _)
      (hj _ (ends_cons (by decide) _)) (Or.inr ⟨_, skipBlanks_cons rfl _, hmore⟩)

/-- Joined texts begin with the first of them. -/
theorem exists_intercalate (s : String) (texts : List String) :
    ∃ more, (",".intercalate (s :: texts)).toList = s.toList ++ more := by
  cases texts with
  | nil => exact ⟨[], by simp⟩
  | cons t texts => exact ⟨',' :: (",".intercalate (t :: texts)).toList, by
      simp [String.intercalate_cons_cons]⟩

theorem writes_array {elements : List Json}
    (h : ∀ k ∈ elements, Writes round (compact k).toList (k.mapFloats g)) :
    Writes round (compact (.array elements)).toList ((Json.array elements).mapFloats g) := by
  have htext : (compact (.array elements)).toList =
      '[' :: ((",".intercalate (compactElements elements)).toList ++ [']']) := by
    simp [compact]
  rw [htext, mapFloats_array]
  refine ⟨⟨_, _, rfl, rfl, by decide⟩, fun rest _ => ?_⟩
  rw [List.cons_append, List.append_assoc, List.singleton_append]
  cases elements with
  | nil => exact reads_array (skipBlanks_cons rfl _) (Or.inl ⟨skipBlanks_cons rfl rest, rfl⟩)
  | cons k js =>
    refine reads_array (skipBlanks_cons rfl _) (Or.inr ⟨?_, reads_compactElements k js h rest⟩)
    obtain ⟨hopens, -⟩ := h k List.mem_cons_self
    obtain ⟨more, hmore⟩ := exists_intercalate (compact k) (compactElements js)
    rw [compactElements, hmore, List.append_assoc, hopens.skipBlanks_append]
    obtain ⟨c, tail, hcs, -, hc⟩ := hopens
    simpa [hcs] using hc

theorem writes_object {fields : List (Option String × Json)}
    (h : ∀ f ∈ fields, f.1.isSome = true ∧ Writes round (compact f.2).toList (f.2.mapFloats g)) :
    Writes round (compact (.object fields)).toList ((Json.object fields).mapFloats g) := by
  have htext : (compact (.object fields)).toList =
      '\x7b' :: ((",".intercalate (compactFields fields)).toList ++ ['\x7d']) := by
    simp [compact]
  rw [htext, mapFloats_object]
  refine ⟨⟨_, _, rfl, rfl, by decide⟩, fun rest _ => ?_⟩
  rw [List.cons_append, List.append_assoc, List.singleton_append]
  cases fields with
  | nil => exact reads_object (skipBlanks_cons rfl _) (Or.inl ⟨skipBlanks_cons rfl rest, rfl⟩)
  | cons f fields =>
    refine reads_object (skipBlanks_cons rfl _)
      (Or.inr ⟨?_, reads_compactFields f fields h rest⟩)
    obtain ⟨name, j⟩ := f
    obtain ⟨s, rfl⟩ := Option.isSome_iff_exists.mp (h _ List.mem_cons_self).1
    obtain ⟨more, hmore⟩ := exists_intercalate (quoted? (some s) ++ ":" ++ compact j)
      (compactFields fields)
    rw [compactFields, hmore, List.append_assoc, toList_member, skipBlanks_cons rfl]
    simp

/-- What a text can spell is read from the text without spaces, up to how its doubles are read. -/
theorem writes_compact (h : Spelled (fun x => ReadsAs round x (g x)) j) :
    Writes round (compact j).toList (j.mapFloats g) := by
  induction h with
  | null => exact writes_scalar (by decide) fun rest _ => ⟨_, rfl, rfl, rfl⟩
  | bool b =>
    cases b with
    | false => exact writes_scalar (by decide) fun rest _ => ⟨_, rfl, rfl, rfl⟩
    | true => exact writes_scalar (by decide) fun rest _ => ⟨_, rfl, rfl, rfl⟩
  | natural hn =>
    exact writes_number (Number.beginsNumber_natural _) (fun rest => numeral?_natural _)
      (Numeral.number_natural round hn)
  | float hx hread =>
    obtain ⟨hbegins, q, hq, -, hnumeral⟩ := Number.exists_numeral_float hx
    refine writes_number hbegins hnumeral ?_
    have hend := hnumeral [] ends_nil
    rw [List.append_nil] at hend
    rw [ReadsAs, hend] at hread
    exact (Numeral.number_float round hq).trans (congrArg _ (Option.some.inj hread))
  | string s => exact writes_string s
  | array _ ih => exact writes_array ih
  | object hnames _ ih => exact writes_object fun f hf => ⟨hnames f hf, ih f hf⟩

end Reader

variable {round : Numeral → Float} {j : Json}

/-- The text without spaces is read as the value, up to how its doubles are read. -/
theorem ofChars?_mapFloats {g : Float → Float} (h : Spelled (fun x => ReadsAs round x (g x)) j) :
    ofChars? round (compact j).toList = some (j.mapFloats g) := by
  have hread : Reader.Reads (Reader.value round (compact j).toList) (j.mapFloats g) [] := by
    have h' := (Reader.writes_compact h).2 [] ends_nil
    rwa [List.append_nil] at h'
  obtain ⟨p, hp, hvalue, hrest⟩ := hread
  rw [ofChars?, hp, Option.bind_eq_bind, Option.bind_some, hrest]
  exact congrArg some hvalue

/-- The text without spaces is read as the value. -/
theorem ofChars?_compact (h : Spelled (ReadsBack round) j) :
    ofChars? round (compact j).toList = some j := by
  have hread := ofChars?_mapFloats (g := id) h
  rwa [mapFloats_id h] at hread

end Json

end LinearProgram

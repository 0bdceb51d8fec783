import LinearProgram.Proofs.Json.Events
import LinearProgram.Proofs.Json.Programs

/-! # Nothing is lost in JSON

Every value of a type that is exchanged in JSON is read back from its text, and a text that was read
and written is not changed by being read and written again. Both are shown for all codecs, and every
type that is exchanged has one.
-/

namespace LinearProgram

open Json (Codec Decoder Numeral ReadsBack)

namespace Json.Codec

variable {β : Type} (c : Codec β) {round : Numeral → Float} {v : β}

/-- A value is read from its text. -/
theorem read_compact (hv : ∀ x ∈ c.floats v, x.isFinite = true ∧ ReadsBack round x)
    (hfits : c.fits v = true) (hdepth : (c.write v).depth ≤ depthLimit) :
    (ofChars? round (c.write v).compact.toList).bind (decode? c.read) = some v := by
  rw [ofChars?_compact (c.spelled hv hfits)]
  exact c.read_write (fun x hx => (hv x hx).1) hfits hdepth

/-- Whatever a value is read from, the value can be written. -/
theorem of_read_chars {cs : List Char} (h : (ofChars? round cs).bind (decode? c.read) = some v) :
    (∀ x ∈ c.floats v, x.isFinite = true) ∧ c.fits v = true ∧ (c.write v).depth ≤ depthLimit := by
  obtain ⟨j, -, hj⟩ := Option.bind_eq_some_iff.mp h
  exact c.of_read hj

end Json.Codec

/-- The types that are exchanged in JSON. -/
inductive Shape where
  | problem
  | objective
  | constraint
  | snapshot
  | event
  | trace
  | cornerResponse
  | simplexSolution
  | program
  | linearForm
  | compiledProblem
  deriving DecidableEq, Repr

namespace Shape

abbrev Value : Shape → Type
  | problem => Problem Float
  | objective => Objective Float
  | constraint => Constraint Float
  | snapshot => Snapshot Float
  | event => Event Float
  | trace => Trace Float
  | cornerResponse => CornerResponse
  | simplexSolution => SimplexSolution Float
  | program => Program Float
  | linearForm => LinearForm Float
  | compiledProblem => CompiledProblem Float

def codec : (s : Shape) → Codec s.Value
  | problem => Problem.codec
  | objective => Objective.codec
  | constraint => Constraint.codec
  | snapshot => Snapshot.codec
  | event => Event.codec
  | trace => Trace.codec
  | cornerResponse => CornerResponse.codec
  | simplexSolution => SimplexSolution.codec
  | program => Program.codec
  | linearForm => LinearForm.codec
  | compiledProblem => CompiledProblem.codec

def toJson : (s : Shape) → s.Value → Json
  | problem => Problem.toJson
  | objective => Objective.toJson
  | constraint => Constraint.toJson
  | snapshot => Snapshot.toJson
  | event => Event.toJson
  | trace => Trace.toJson
  | cornerResponse => CornerResponse.toJson
  | simplexSolution => SimplexSolution.toJson
  | program => Program.toJson
  | linearForm => LinearForm.toJson
  | compiledProblem => CompiledProblem.toJson

def ofJson : (s : Shape) → Decoder s.Value
  | problem => Problem.ofJson
  | objective => Objective.ofJson
  | constraint => Constraint.ofJson
  | snapshot => Snapshot.ofJson
  | event => Event.ofJson
  | trace => Trace.ofJson
  | cornerResponse => CornerResponse.ofJson
  | simplexSolution => SimplexSolution.ofJson
  | program => Program.ofJson
  | linearForm => LinearForm.ofJson
  | compiledProblem => CompiledProblem.ofJson

theorem codec_write (s : Shape) : s.codec.write = s.toJson := by
  cases s <;> rfl

theorem codec_read (s : Shape) : s.codec.read = s.ofJson := by
  cases s <;> rfl

/-- Reads a text, given how its numerals are rounded. -/
def read? (round : Numeral → Float) (s : Shape) (text : String) : Option s.Value :=
  (Json.ofChars? round text.toList).bind (Json.decode? s.ofJson)

def text (s : Shape) (v : s.Value) : String := (s.toJson v).compact

/-- Reads a text and writes what was read. -/
def rewrite? (round : Numeral → Float) (s : Shape) (text : String) : Option String :=
  (s.read? round text).map s.text

variable {round : Numeral → Float} {s : Shape} {v : s.Value}

theorem read?_text_of_fits (hv : ∀ x ∈ s.codec.floats v, x.isFinite = true ∧ ReadsBack round x)
    (hfits : s.codec.fits v = true) (hdepth : (s.toJson v).depth ≤ Json.depthLimit) :
    s.read? round (s.text v) = some v := by
  rw [← codec_write] at hdepth
  rw [read?, text, ← codec_write, ← codec_read]
  exact s.codec.read_compact hv hfits hdepth

theorem of_read? {text : String} (h : s.read? round text = some v) :
    (∀ x ∈ s.codec.floats v, x.isFinite = true) ∧ s.codec.fits v = true ∧
      (s.toJson v).depth ≤ Json.depthLimit := by
  rw [read?, ← codec_read] at h
  rw [← codec_write]
  exact s.codec.of_read_chars h

/-- If the written doubles are read back, then every value of finite doubles is read from its text, as
long as its natural numbers have the bits of their fields and it nests no deeper than values are
read. All values that are read are such values, so that reading and writing a text twice has the same
result as once. -/
theorem lossless (round : Numeral → Float) (s : Shape) :
    (∀ v, (∀ x ∈ s.codec.floats v, x.isFinite = true ∧ ReadsBack round x) →
      s.codec.fits v = true → (s.toJson v).depth ≤ Json.depthLimit →
        s.read? round (s.text v) = some v) ∧
      ∀ text v, s.read? round text = some v → (∀ x ∈ s.codec.floats v, x.isFinite = true) ∧
        ((∀ x ∈ s.codec.floats v, ReadsBack round x) →
          (s.rewrite? round text).bind (s.rewrite? round) = s.rewrite? round text) := by
  refine ⟨fun v => read?_text_of_fits, fun text v h => ?_⟩
  obtain ⟨hfinite, hfits, hdepth⟩ := of_read? h
  refine ⟨hfinite, fun hback => ?_⟩
  have hread : s.read? round (s.text v) = some v :=
    read?_text_of_fits (fun x hx => ⟨hfinite x hx, hback x hx⟩) hfits hdepth
  have hrewrite : s.rewrite? round text = some (s.text v) := by
    rw [rewrite?, h]
    rfl
  rw [hrewrite, Option.bind_some, rewrite?, hread]
  rfl

/-- As `max: 2(x + -0.1) / 3` with an unnamed objective, and `-y >= 1e100`. -/
def nestedProgram : Program Float :=
  ⟨[.objective ⟨⟨0, 21⟩, .maximize, none,
      .binary (.binary (.number 2.0) .mul (.paren (.binary (.var ⟨⟨7, 8⟩, "x"⟩) .add
        (.number (-0.1))))) .div (.number 3.0)⟩,
    .constraint ⟨⟨22, 33⟩, .neg (.var ⟨⟨23, 24⟩, "y"⟩), .ge, .number 1e100⟩]⟩

/-- A problem with other names, other fields, another order and with lists for objects. -/
def aliasedText : String :=
  "\x7b\"constraints\": [\x7b\"relation\": \"le\", \"extra\": [1e3], \"bound\": 4, " ++
    "\"coefficients\": [1, 2.5e-1]\x7d, [[0.1, -0.0], \x7b\"ge\": null\x7d, 7]], " ++
    "\"objective\": [[3, 2], \"max\"]\x7d"

def aliasedProblem : Problem Float :=
  ⟨⟨[3.0, 2.0], .maximize⟩, [⟨[1.0, 0.25], .le, 4.0⟩, ⟨[0.1, -0.0], .ge, 7.0⟩]⟩

theorem lossless_quick :
    Shape.program.read? Numeral.quick (Shape.program.text nestedProgram) = some nestedProgram ∧
      (Shape.problem.rewrite? Numeral.quick aliasedText).bind
        (Shape.problem.rewrite? Numeral.quick) = Shape.problem.rewrite? Numeral.quick aliasedText :=
  ⟨(lossless Numeral.quick .program).1 nestedProgram (by decide +kernel) (by decide +kernel)
      (by decide +kernel),
    ((lossless Numeral.quick .problem).2 aliasedText aliasedProblem (by decide +kernel)).2
      (by decide +kernel)⟩

end Shape

end LinearProgram

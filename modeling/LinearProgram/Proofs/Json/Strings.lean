import LinearProgram.Json.Reader
import LinearProgram.Json.Writer
import Mathlib.Data.Fintype.Basic
import Mathlib.Tactic.FinCases

/-! # Strings in JSON texts

Every character is written so that it is read back, and no character is a surrogate, so a quoted
string is read as the string.
-/

namespace LinearProgram

namespace Json

namespace Reader

variable {rest left : List Char} {found : List ℕ}

/-- Control characters are written with four hexadecimal digits. -/
theorem hexCode?_zeroPadded {n : ℕ} (hn : n < 32) : ∃ a b c d,
    (Text.zeroPadded 4 (Nat.toDigits 16 n)).toList = [a, b, c, d] ∧ hexCode? a b c d = some n := by
  have hall : ∀ n : Fin 32, ∃ a b c d, (Text.zeroPadded 4 (Nat.toDigits 16 n)).toList =
      [a, b, c, d] ∧ hexCode? a b c d = some n.val := by
    intro n
    fin_cases n <;> exact ⟨_, _, _, _, rfl, rfl⟩
  exact hall ⟨n, hn⟩

theorem codes_escaped {c d : Char} (hd : escaped? d = some c)
    (h : codes rest = some (found, left)) :
    codes ('\\' :: d :: rest) = some (c.toNat :: found, left) := by
  rw [codes.eq_4, hd, h]
  · rfl
  · rintro - - - - - rfl -
    cases hd

/-- Every character is read back from what is written for it. -/
theorem codes_escape (c : Char) (h : codes rest = some (found, left)) :
    codes ((escape c).toList ++ rest) = some (c.toNat :: found, left) := by
  unfold escape
  split_ifs with hquote hslash hb hf hn hr ht hcontrol
  · exact hquote ▸ codes_escaped rfl h
  · exact hslash ▸ codes_escaped rfl h
  · exact hb ▸ codes_escaped rfl h
  · exact hf ▸ codes_escaped rfl h
  · exact hn ▸ codes_escaped rfl h
  · exact hr ▸ codes_escaped rfl h
  · exact ht ▸ codes_escaped rfl h
  · obtain ⟨a, b, d, e, hdigits, hcode⟩ := hexCode?_zeroPadded hcontrol
    rw [String.toList_append, hdigits]
    change codes ('\\' :: 'u' :: a :: b :: d :: e :: rest) = _
    rw [codes.eq_3, hcode, h]
    rfl
  · have htext : c.toString.toList = [c] := String.toList_singleton c
    rw [htext, List.singleton_append, codes.eq_5, if_neg hcontrol, h]
    · rfl
    · exact hquote
    · intro _ _ _ _ _ heq
      exact absurd heq hslash
    · intro _ _ heq
      exact absurd heq hslash

/-- What is written between the quotes of a string is read as its characters. -/
theorem codes_join (cs : List Char) (rest : List Char) :
    codes ((String.join (cs.map escape)).toList ++ '"' :: rest) =
      some (cs.map Char.toNat, rest) := by
  induction cs with
  | nil => exact codes.eq_2 rest
  | cons c cs ih =>
    rw [List.map_cons, String.join_cons, String.toList_append, List.append_assoc]
    exact codes_escape c ih

/-- No character is a surrogate. -/
theorem characters_map (cs : List Char) : characters (cs.map Char.toNat) = some cs := by
  induction cs with
  | nil => rfl
  | cons c cs ih =>
    have hvalid : c.toNat < 0xD800 ∨ 0xDFFF < c.toNat ∧ c.toNat < 0x110000 := c.valid
    rw [List.map_cons, characters.eq_def]
    dsimp only
    rw [if_neg (by omega), if_neg (by omega), ih]
    simp

/-- A reading takes a value off the front and leaves the rest. -/
def Reads {β : Type} {cs : List Char} (reading : Option (Parsed β cs)) (v : β)
    (rest : List Char) : Prop :=
  ∃ p, reading = some p ∧ p.value = v ∧ p.rest = rest

theorem reads_quoted (s : String) (rest : List Char) :
    Reads (string ((String.join (s.toList.map escape)).toList ++ '"' :: rest)) (some s) rest := by
  have hcodes := codes_join s.toList rest
  rw [string]
  split
  · next hnone =>
    rw [hcodes] at hnone
    cases hnone
  · next found left hsome =>
    rw [hcodes] at hsome
    obtain ⟨rfl, rfl⟩ := Prod.mk.inj (Option.some.inj hsome)
    exact ⟨_, rfl, by simp [characters_map], rfl⟩

end Reader

end Json

end LinearProgram

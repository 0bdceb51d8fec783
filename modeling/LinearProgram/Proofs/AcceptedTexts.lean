import LinearProgram.Proofs.ParserSound
import LinearProgram.Proofs.ParserComplete

/-! # Which texts are accepted

The parser accepts the texts whose tokens the grammar derives, and returns the tree of the
derivation. Hence no text has two trees.
-/

namespace LinearProgram

variable {α : Type} [Scalar α]

namespace Parser

open Grammar

variable {ts : List Token}

theorem followedBy_dropWhile (ts : List Token) :
    FollowedBy [.eof] (ts.dropWhile (·.kind ≠ .eof)) := by
  intro t ht
  have hstop := List.head?_dropWhile_not (fun t : Token => decide (t.kind ≠ .eof)) ts
  rw [Option.mem_def.mp ht] at hstop
  simpa using hstop

/-- The parser accepts what the grammar derives, up to the end of the text. -/
theorem statements_eq_ok_iff {ss : List (Statement α)} (h : ∀ t ∈ ts, IsLegible t) :
    statements ts = .ok ss ↔ Derives (beforeEnd ts) ss := by
  constructor
  · exact statements_sound
  · intro hderives
    have hlegible : ∀ t ∈ beforeEnd ts, IsLegible t := fun t ht =>
      h t ((List.takeWhile_sublist _).subset ht)
    have hsplit : beforeEnd ts ++ ts.dropWhile (·.kind ≠ .eof) = ts :=
      List.takeWhile_append_dropWhile
    rw [← hsplit]
    exact statements_complete hderives hlegible (followedBy_dropWhile ts)

/-- Two derivations from the tokens of a text have the same tree. -/
theorem eq_of_derives {ss ss' : List (Statement α)} (h : ∀ t ∈ ts, IsLegible t)
    (hss : Derives (beforeEnd ts) ss) (hss' : Derives (beforeEnd ts) ss') : ss = ss' := by
  have hread := (statements_eq_ok_iff h).mpr hss
  have hread' := (statements_eq_ok_iff h).mpr hss'
  exact Except.ok.inj (hread.symm.trans hread')

end Parser

namespace Program

/-- A text is accepted if the grammar derives its tokens up to the end of the text. -/
theorem parse_iff_derives {source : String} {ss : List (Statement α)} :
    parse source = .ok ⟨ss⟩ ↔ Grammar.Derives (Parser.beforeEnd (tokenize source)) ss := by
  rw [← Parser.statements_eq_ok_iff fun _ => isLegible_of_mem_tokenize, parse]
  cases (Parser.statements (tokenize source) : Except ParseError (List (Statement α))) <;>
    simp [Except.map]

/-- A text is accepted with the program that the grammar derives from its tokens, and with no
other. -/
theorem parse_eq_ok_iff (source : String) (program : Program α) :
    parse source = .ok program ↔
      Grammar.Derives ((tokenize source).filter (·.kind ≠ .eof)) program.statements := by
  rw [← beforeEnd_tokenize, ← parse_iff_derives]

end Program

end LinearProgram

import LinearProgram.Proofs.LoneChains
import LinearProgram.Proofs.Positions
import Mathlib.Data.Rat.Defs

/-! # Statements cut out of a text

The span of a statement covers its own tokens, and those of the relations before it in its chain.
So the piece of the source under the span reads as the statement again, in its place there.
-/

namespace LinearProgram

open Grammar

variable {α : Type} [Scalar α] {source : String} {ts us : List Token} {o : ObjectiveStatement α}
  {c : ConstraintStatement α} {cs : List (ConstraintStatement α)} {ss : List (Statement α)}

namespace Grammar

/-- A chain may be broken off behind each of its relations. -/
theorem Links.exists_prefix {first : ℕ} {lhs : Expr α} (h : Links first lhs ts cs) (hc : c ∈ cs) :
    ∃ us ds, us <+: ts ∧ Links first lhs us (ds ++ [c]) ∧ c.span = ⟨first, stop us⟩ := by
  induction h with
  | @last lhs t relation us rhs ht hus =>
    obtain rfl := List.mem_singleton.mp hc
    refine ⟨t :: us, [], List.prefix_rfl, .last ht hus, ?_⟩
    rw [stop_cons hus.ne_nil]
  | @more lhs t relation us rhs vs cs ht hus hvs ih =>
    rcases List.mem_cons.mp hc with rfl | hc
    · refine ⟨t :: us, [], List.prefix_append (t :: us) vs, .last ht hus, ?_⟩
      rw [stop_cons hus.ne_nil]
    · obtain ⟨ws, ds, hprefix, hlinks, hspan⟩ := ih hc
      have hws : ws ≠ [] := by
        obtain ⟨w, ws', relation', rfl, -⟩ := hlinks.exists_cons
        exact List.cons_ne_nil w ws'
      refine ⟨t :: (us ++ ws), _ :: ds, ?_, .more ht hus hlinks, ?_⟩
      · exact (List.prefix_append_right_inj (t :: us)).mpr hprefix
      · rw [hspan, ← List.cons_append, stop_append hws]

theorem Chain.exists_prefix (h : Chain ts cs) (hc : c ∈ cs) :
    ∃ us ds, us <+: ts ∧ Chain us (ds ++ [c]) ∧ c.span = ⟨start us, stop us⟩ := by
  cases h with
  | @mk ts lhs us cs hts hus =>
    obtain ⟨vs, ds, hprefix, hlinks, hspan⟩ := hus.exists_prefix hc
    have hvs : vs ≠ [] := by
      obtain ⟨v, vs', relation, rfl, -⟩ := hlinks.exists_cons
      exact List.cons_ne_nil v vs'
    refine ⟨ts ++ vs, ds, ?_, .mk hts hlinks, ?_⟩
    · exact (List.prefix_append_right_inj ts).mpr hprefix
    · rw [hspan, start_append hts.ne_nil, stop_append hvs]

theorem ObjectiveLine.span_eq (h : ObjectiveLine ts o) : o.span = ⟨start ts, stop ts⟩ := by
  cases h with
  | mk _ _ _ hts =>
    rw [← List.append_assoc, ← List.cons_append, stop_append hts.ne_nil]
    rfl

theorem ConstraintLine.exists_infix (h : ConstraintLine ts cs) (hc : c ∈ cs) :
    ∃ us ds, us <:+: ts ∧ Chain us (ds ++ [c]) ∧ c.span = ⟨start us, stop us⟩ := by
  induction h with
  | last hts =>
    obtain ⟨us, ds, hprefix, hchain⟩ := hts.exists_prefix hc
    exact ⟨us, ds, hprefix.isInfix, hchain⟩
  | @more ts cs t us ds hts _ _ ih =>
    rcases List.mem_append.mp hc with hc | hc
    · obtain ⟨vs, es, hprefix, hchain⟩ := hts.exists_prefix hc
      exact ⟨vs, es, hprefix.isInfix.trans (List.prefix_append ts _).isInfix, hchain⟩
    · obtain ⟨vs, es, hinfix, hchain⟩ := ih hc
      refine ⟨vs, es, hinfix.trans ?_, hchain⟩
      exact (List.suffix_cons t us).isInfix.trans (List.suffix_append ts _).isInfix

/-- Every objective has a line of its own among the tokens. -/
theorem Derives.exists_objectiveLine (h : Derives ts ss) (ho : .objective o ∈ ss) :
    ∃ us, us <:+: ts ∧ ObjectiveLine us o := by
  induction h with
  | empty => cases ho
  | @layout t ts ss _ _ ih =>
    obtain ⟨us, hinfix, hline⟩ := ih ho
    exact ⟨us, hinfix.trans (List.suffix_cons t ts).isInfix, hline⟩
  | @objective ts o' us ss hts _ _ ih =>
    rcases List.mem_cons.mp ho with heq | ho
    · cases heq
      exact ⟨ts, (List.prefix_append ts us).isInfix, hts⟩
    · obtain ⟨vs, hinfix, hline⟩ := ih ho
      exact ⟨vs, hinfix.trans (List.suffix_append ts us).isInfix, hline⟩
  | @closedObjective ts o' t us ss hts _ _ ih =>
    rcases List.mem_cons.mp ho with heq | ho
    · cases heq
      exact ⟨ts, (List.prefix_append ts _).isInfix, hts⟩
    · obtain ⟨vs, hinfix, hline⟩ := ih ho
      refine ⟨vs, hinfix.trans ?_, hline⟩
      exact (List.suffix_cons t us).isInfix.trans (List.suffix_append ts _).isInfix
  | @constraints ts cs us ss _ _ _ ih =>
    rcases List.mem_append.mp ho with ho | ho
    · simp at ho
    · obtain ⟨vs, hinfix, hline⟩ := ih ho
      exact ⟨vs, hinfix.trans (List.suffix_append ts us).isInfix, hline⟩

/-- Every constraint ends a chain among the tokens. -/
theorem Derives.exists_chain (h : Derives ts ss) (hc : .constraint c ∈ ss) :
    ∃ us ds, us <:+: ts ∧ Chain us (ds ++ [c]) ∧ c.span = ⟨start us, stop us⟩ := by
  induction h with
  | empty => cases hc
  | @layout t ts ss _ _ ih =>
    obtain ⟨us, ds, hinfix, hchain⟩ := ih hc
    exact ⟨us, ds, hinfix.trans (List.suffix_cons t ts).isInfix, hchain⟩
  | @objective ts o us ss _ _ _ ih =>
    rcases List.mem_cons.mp hc with heq | hc
    · cases heq
    · obtain ⟨vs, ds, hinfix, hchain⟩ := ih hc
      exact ⟨vs, ds, hinfix.trans (List.suffix_append ts us).isInfix, hchain⟩
  | @closedObjective ts o t us ss _ _ _ ih =>
    rcases List.mem_cons.mp hc with heq | hc
    · cases heq
    · obtain ⟨vs, ds, hinfix, hchain⟩ := ih hc
      refine ⟨vs, ds, hinfix.trans ?_, hchain⟩
      exact (List.suffix_cons t us).isInfix.trans (List.suffix_append ts _).isInfix
  | @constraints ts cs us ss hts _ _ ih =>
    rcases List.mem_append.mp hc with hc | hc
    · obtain ⟨vs, ds, hinfix, hchain⟩ := hts.exists_infix (by simpa using hc)
      exact ⟨vs, ds, hinfix.trans (List.prefix_append ts us).isInfix, hchain⟩
    · obtain ⟨vs, ds, hinfix, hchain⟩ := ih hc
      exact ⟨vs, ds, hinfix.trans (List.suffix_append ts us).isInfix, hchain⟩

section Uniqueness

variable {o' : ObjectiveStatement α} {cs' : List (ConstraintStatement α)}
  (hlegible : ∀ t ∈ ts, Parser.IsLegible t)

include hlegible

theorem ObjectiveLine.unique (h : ObjectiveLine ts o) (h' : ObjectiveLine ts o') : o = o' := by
  have hrest : Parser.FollowedBy Parser.objectiveEnds [] := nofun
  obtain ⟨hlt, hread⟩ := Parser.objective_complete h hlegible hrest
  obtain ⟨hlt', hread'⟩ := Parser.objective_complete h' hlegible hrest
  simpa using hread.symm.trans hread'

theorem Chain.unique (h : Chain ts cs) (h' : Chain ts cs') : cs = cs' := by
  have hrest : Parser.FollowedBy Parser.chainEnds [] := nofun
  obtain ⟨hlt, hread⟩ := Parser.chain_complete h hlegible hrest
  obtain ⟨hlt', hread'⟩ := Parser.chain_complete h' hlegible hrest
  simpa using hread.symm.trans hread'

end Uniqueness

end Grammar

/-- Tokens of a text that follow each other are, moved to the front, all tokens of the piece of the
text that they cover. -/
theorem beforeEnd_tokenize_cut (h : us <:+: Parser.beforeEnd (tokenize source)) (hus : us ≠ []) :
    Span.IsWithin ⟨start us, stop us⟩ source ∧
      Parser.beforeEnd (tokenize (Span.cut ⟨start us, stop us⟩ source)) =
        us.map (Token.relocate (· - start us)) ∧
      (us.map (Token.relocate (· - start us))).map (Token.relocate (· + start us)) = us := by
  obtain ⟨before, after, hinfix⟩ := h
  obtain ⟨ts, eof, hts, heof, hall⟩ := Cursor.tokens_eq_append ⟨0, source.toList⟩
  have hend : Parser.beforeEnd (tokenize source) = ts := by
    rw [tokenize, hts, Parser.beforeEnd_append fun t ht => (hall t ht).1,
      Parser.beforeEnd_of_eof heof, List.append_nil]
  have hsplit : tokenize source = before ++ (us ++ (after ++ [eof])) := by
    rw [tokenize, hts, ← hend, ← hinfix]
    simp
  obtain ⟨hwithin, vs, eof', hcut, heof', hvs⟩ := tokenize_cut hsplit hus (by simp)
  have hback : us.map (Token.relocate (· - start us)) = vs := by
    have hmoved := Token.map_relocate_add_sub (start us) vs
    rwa [hvs] at hmoved
  refine ⟨hwithin, ?_, ?_⟩
  · rw [hcut, hback, Parser.beforeEnd_append, Parser.beforeEnd_of_eof heof', List.append_nil]
    intro t ht
    have hmem := List.mem_map_of_mem (f := Token.relocate (· + start us)) ht
    rw [hvs] at hmem
    have hts' : t.relocate (· + start us) ∈ ts := by
      rw [← hend, ← hinfix]
      simp [hmem]
    exact (hall _ hts').1
  · rw [hback, hvs]

/-- Every statement lies in the text. What its span covers reads as this objective again, or as a
chain that ends with this constraint, and moved behind what stood before it in the text it is the
statement. -/
theorem Program.parse_cut {program : Program α} (h : Program.parse source = .ok program) :
    (∀ o, .objective o ∈ program.statements → o.span.IsWithin source ∧
      ∃ o', Program.parse (o.span.cut source) = .ok ⟨[.objective o']⟩ ∧
        o'.relocate (· + o.span.start) = o) ∧
    ∀ c, .constraint c ∈ program.statements → c.span.IsWithin source ∧
      ∃ cs c', ConstraintStatement.parse (c.span.cut source) = .ok (cs ++ [c']) ∧
        c'.relocate (· + c.span.start) = c := by
  obtain ⟨ss⟩ := program
  have hderives := parse_iff_derives.mp h
  have hlegible {us : List Token} (hus : us <:+: Parser.beforeEnd (tokenize source)) :
      ∀ t ∈ us, Parser.IsLegible t := fun t ht =>
    isLegible_of_mem_tokenize ((List.takeWhile_sublist _).subset (hus.subset ht))
  constructor
  · intro o ho
    obtain ⟨us, hinfix, hline⟩ := hderives.exists_objectiveLine ho
    have hne : us ≠ [] := by
      obtain ⟨t, us', sense, rfl, -⟩ := hline.exists_cons
      exact List.cons_ne_nil t us'
    obtain ⟨hwithin, htokens, hback⟩ := beforeEnd_tokenize_cut hinfix hne
    have halone := hline.relocate (· - start us)
    have hthere := halone.relocate (· + start us)
    rw [hback] at hthere
    rw [hline.span_eq]
    refine ⟨hwithin, o.relocate (· - start us), ?_, hthere.unique (hlegible hinfix) hline⟩
    rw [parse_iff_derives, htokens]
    have hderived : Derives (_ ++ []) [.objective _] := .objective halone trivial .empty
    rwa [List.append_nil] at hderived
  · intro c hc
    obtain ⟨us, ds, hinfix, hchain, hspan⟩ := hderives.exists_chain hc
    have hne : us ≠ [] := by
      obtain ⟨t, us', rfl, -⟩ := hchain.exists_cons
      exact List.cons_ne_nil t us'
    obtain ⟨hwithin, htokens, hback⟩ := beforeEnd_tokenize_cut hinfix hne
    have halone := hchain.relocate (· - start us)
    have hthere := halone.relocate (· + start us)
    rw [hback] at hthere
    have hsame := hthere.unique (hlegible hinfix) hchain
    rw [List.map_append, List.map_append, List.map_singleton, List.map_singleton] at hsame
    rw [hspan]
    refine ⟨hwithin, ds.map (ConstraintStatement.relocate (· - start us)),
      c.relocate (· - start us), ?_, ?_⟩
    · rw [ConstraintStatement.parse_iff_loneChain, htokens]
      have hlone : LoneChain ([] ++ (_ ++ [])) _ := .mk nofun halone nofun
      rwa [List.nil_append, List.append_nil, List.map_append] at hlone
    · exact List.singleton_inj.mp (List.append_inj_right' hsame rfl)

/-- An objective closed by a semicolon, and a chain behind it; the comment has a letter of two
bytes. -/
def chainText : String := "// é\nmax x; 0 ≤ x ≤ 4"

def chainProgram : Program ℚ :=
  ⟨[.objective ⟨⟨6, 11⟩, .maximize, none, .var ⟨⟨10, 11⟩, "x"⟩⟩,
    .constraint ⟨⟨13, 20⟩, .number 0, .le, .var ⟨⟨19, 20⟩, "x"⟩⟩,
    .constraint ⟨⟨13, 26⟩, .var ⟨⟨19, 20⟩, "x"⟩, .le, .number 4⟩]⟩

theorem Program.parse_cut_chainText : Program.parse chainText = .ok chainProgram ∧
    ∃ cs c', ConstraintStatement.parse "0 ≤ x ≤ 4" = .ok (cs ++ [c']) ∧
      c'.relocate (· + 13) =
        (⟨⟨13, 26⟩, .var ⟨⟨19, 20⟩, "x"⟩, .le, .number 4⟩ : ConstraintStatement ℚ) := by
  have hparse : Program.parse chainText = .ok chainProgram := eq_ok_of_toOption (by decide +kernel)
  have hcut : Span.cut ⟨13, 26⟩ chainText = "0 ≤ x ≤ 4" := by decide +kernel
  obtain ⟨-, cs, c', hcs, hc'⟩ := (parse_cut hparse).2
    ⟨⟨13, 26⟩, .var ⟨⟨19, 20⟩, "x"⟩, .le, .number 4⟩ (by simp [chainProgram])
  rw [hcut] at hcs
  exact ⟨hparse, cs, c', hcs, hc'⟩

end LinearProgram

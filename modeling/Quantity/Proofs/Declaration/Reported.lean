import Quantity.Proofs.Declaration.Resynchronize

/-!
# What readers report

Whoever reads a text reports malformed tokens and faults of declarations, and nothing else: what
declarations mean is not looked at. Every reader keeps to it, since all it does is to go on to later
states (`Later`), and so does the reading of a whole text (`Declarations.read_isSyntactic`).
-/

namespace Quantity

/-- Everything in the list is an error, and about tokens or about the form of declarations. -/
structure Diagnostics.IsSyntactic (source : Option String) (ds : Diagnostics) : Prop where
  source : ds.source = source
  stage : ∀ d ∈ ds.items, d.stage = .lex ∨ d.stage = .parse
  isError : ∀ d ∈ ds.items, d.isError = true

open Quantity.Parser

/-- What is reported about a text is what is reported when all of it was read. -/
theorem Declarations.exists_last (source : Option String) (text : String) : ∃ t ts last,
    Token.significant text = t :: ts ∧ Later (startState source t ts) last ∧
      (Declarations.read source text).2 = last.diagnostics := by
  obtain ⟨t, ts, htokens, -⟩ := Token.exists_significant_eq text
  refine ⟨t, ts, _, htokens, later_declarations (ts.length + 1) (startState source t ts) {}, ?_⟩
  exact congrArg Prod.snd (read_eq source htokens (Prod.eta _).symm)

/-- **Every report is about a token of the text**, and says why it is malformed only if it is. -/
theorem Declarations.exists_reportedAt (hd : d ∈ (Declarations.read source text).2.items) :
    ∃ t ∈ Token.significant text, ReportedAt source t d := by
  obtain ⟨t, ts, last, htokens, hlater, hread⟩ := exists_last source text
  obtain ⟨taken, new, hpasses⟩ := hlater.passes
  obtain ⟨first, hfirst, hreports⟩ := exists_reportLexError { source } t
  have hsource : (startState source t ts).diagnostics.source = source := source_reportLexError _ _
  have htaken : t :: ts = taken ++ _ := hpasses.tokens
  rw [hread, hpasses.items, startState, hfirst] at hd
  rw [htokens]
  rcases List.mem_append.mp hd with hd | hd
  · exact ⟨t, List.mem_cons_self, hreports d hd⟩
  · obtain ⟨u, hu, hd⟩ := hpasses.reports d hd
    rw [hsource] at hd
    refine ⟨u, ?_, hd⟩
    rw [htaken, State.tokens, List.append_cons]
    exact List.mem_append_left _ hu

/-- **Whatever text is read, only its tokens and the form of its declarations are found fault
with.** -/
theorem Declarations.read_isSyntactic (source : Option String) (text : String) :
    (Declarations.read source text).2.IsSyntactic source := by
  obtain ⟨t, ts, last, -, hlater, hread⟩ := exists_last source text
  have hreports : ∀ d ∈ (Declarations.read source text).2.items,
      (d.stage = .lex ∨ d.stage = .parse) ∧ d.isError = true := by
    intro d hd
    obtain ⟨t, -, hd⟩ := exists_reportedAt hd
    cases hd with
    | malformed => exact ⟨.inl rfl, rfl⟩
    | fault => exact ⟨.inr rfl, rfl⟩
  refine ⟨?_, fun d hd => (hreports d hd).1, fun d hd => (hreports d hd).2⟩
  rw [hread]
  exact hlater.source.trans (source_reportLexError _ _)

end Quantity

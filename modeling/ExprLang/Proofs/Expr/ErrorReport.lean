import ExprLang.Proofs.Expr.Nesting

/-! What is reported of a text without a tree.

    The tokens of a text are read only as far as they begin some sentence. The first token that
    ends this is reported, whatever stands behind it, and a failure to read a token is reported
    only if no such token comes before it. What the report names is told by the constructs that the
    tokens in front have left open. -/

namespace ExprLang

open Grammar

/-- If not all tokens of a text without a tree begin a sentence, the first token that ends this is
    reported, where an operand is required or in the innermost open construct; and if they all do,
    it is reported why no further token can be read. This holds with every budget that is deep
    enough, and with a smaller one unless it runs out. -/
theorem parseWithin_error_report {depth : Nat} {s : String} {err : ParseError}
    (h : parseWithin depth s = .error err) (hd : DeepEnough depth s ∨ err ≠ .tooDeep) :
    ((∃ us, us <+: (Lexer.run (Cursor.ofText s)).tokens ∧ ¬ Viable us) →
      ∃ ts t rest production, (Lexer.run (Cursor.ofText s)).tokens = ts ++ t :: rest ∧
        Viable ts ∧ ¬ Viable (ts ++ [t]) ∧ err = .unexpected t production ∧
        (production = .primary ↔ OperandRequired ts) ∧
        (production ≠ .primary → production = (openConstructs ts).headD .endOfInput)) ∧
    ((∀ us, us <+: (Lexer.run (Cursor.ofText s)).tokens → Viable us) →
      ∃ l, (Lexer.run (Cursor.ofText s)).error? = some l ∧ err = .lexical l) := by
  cases err with
  | lexical l =>
    obtain ⟨herr, σ, hσ⟩ := run_of_parseWithin_lexical h
    refine ⟨?_, fun _ => ⟨l, herr, rfl⟩⟩
    rintro ⟨us, hus, hnot⟩
    exact absurd (Viable.of_prefix (viable_iff.mpr ⟨σ, hσ⟩) hus) hnot
  | unexpected t production =>
    obtain ⟨ts, rest, σ, htok, hts, hσ, ht, rfl⟩ := run_of_parseWithin_unexpected h
    have hnot : ¬ Viable (ts ++ [t]) := by
      rw [viable_iff, Situation.run_append, hσ, Option.bind_some, Situation.run_cons, ht]
      simp
    constructor
    · exact fun _ => ⟨ts, t, rest, σ.production, htok, viable_iff.mpr ⟨σ, hσ⟩, hnot, rfl,
        production_report hσ hts⟩
    · exact fun hall => absurd (hall _ ⟨rest, by simp [htok]⟩) hnot
  | slotOccupied o => exact absurd h (parseWithin_ne_slotOccupied o)
  | tooDeep =>
    have hdeep : DeepEnough depth s := hd.resolve_right fun hne => hne rfl
    exact absurd h hdeep.ne_tooDeep

/-- In `(1 + ) $` the parenthesis behind `+` is reported, where an operand is required; that the
    last character begins no token does not come to light. -/
theorem parseWithin_error_report_operand :
    DeepEnough 20 "(1 + ) $" ∧ ∃ ts t rest,
      (Lexer.run (Cursor.ofText "(1 + ) $")).tokens = ts ++ t :: rest ∧ Viable ts ∧
      ¬ Viable (ts ++ [t]) ∧ OperandRequired ts ∧ t.kind = .symbol .rightParen ∧
      parseWithin 20 "(1 + ) $" = .error (.unexpected t .primary) ∧
      (Lexer.run (Cursor.ofText "(1 + ) $")).error? = some (.unexpectedChar '$' ⟨1, 8⟩) := by
  have h : parseWithin 20 "(1 + ) $" =
      .error (.unexpected ⟨.symbol .rightParen, .text ")", ⟨1, 6⟩⟩ .primary) := by rfl
  have hdeep : DeepEnough 20 "(1 + ) $" := by decide +kernel
  obtain ⟨hbad, hgood⟩ := parseWithin_error_report h (.inl hdeep)
  have hex : ∃ us, us <+: (Lexer.run (Cursor.ofText "(1 + ) $")).tokens ∧ ¬ Viable us := by
    refine Classical.byContradiction fun hnone => ?_
    obtain ⟨l, _, herr⟩ := hgood fun us hus => Classical.byContradiction fun hv =>
      hnone ⟨us, hus, hv⟩
    cases herr
  obtain ⟨ts, t, rest, production, htok, hts, ht, herr, hop, _⟩ := hbad hex
  obtain ⟨rfl, rfl⟩ := ParseError.unexpected.inj herr
  exact ⟨hdeep, ts, _, rest, htok, hts, ht, hop.mp rfl, rfl, h, by decide +kernel⟩

end ExprLang

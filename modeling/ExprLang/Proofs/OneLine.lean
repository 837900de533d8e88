import ExprLang.Failure
import ExprLang.Proofs.Evaluation.Soundness
import ExprLang.Proofs.Text.Lines

/-! A line for each token and for each diagnostic.

    No lexeme has a newline in it, so none comes into what is printed of a token or said about one.
    What begins no token may be any character, but that is quoted. So each token of a text is listed
    on one line, and everything that is reported of a text is one line. -/

namespace ExprLang

open Lexical Text

/-! ### Tokens -/

theorem Text.newline_not_mem_of_isDigits {ds : List Char} (hds : IsDigits ds) : '\n' ∉ ds :=
  fun hmem => absurd (hds.2 _ hmem) (by decide)

theorem Text.newline_not_mem_of_isWord {w : String} (hw : IsWord w) : '\n' ∉ w.toList :=
  fun hmem => absurd (hw.isIdentChar _ hmem) (by decide)

theorem Keyword.newline_not_mem_text (k : Keyword) : '\n' ∉ k.text.toList := by
  cases k <;> decide

theorem Symbol.newline_not_mem_text (s : Symbol) : '\n' ∉ s.text.toList := by
  cases s <;> decide

namespace Lexical.Lexeme

variable {cs : List Char} {kind : TokenKind} {value : Value}

theorem newline_not_mem (h : Lexeme cs kind value) : '\n' ∉ cs := by
  cases h with
  | symbol s => exact s.newline_not_mem_text
  | word hw => exact newline_not_mem_of_isWord hw
  | number hds => exact newline_not_mem_of_isDigits hds

/-- The value of a lexeme is written without a newline. -/
theorem newline_not_mem_plain (h : Lexeme cs kind value) : '\n' ∉ value.plain.toList := by
  refine Value.newline_not_mem_plain fun w hw => ?_
  subst hw
  rw [← h.eq_toList]
  exact h.newline_not_mem

end Lexical.Lexeme

namespace Token

variable {t : Token}

theorem newline_not_mem_listing (h : '\n' ∉ t.value.plain.toList) : '\n' ∉ t.listing.toList := by
  unfold listing
  split
  · exact newline_not_mem_append.mpr ⟨by simp, Keyword.newline_not_mem_text _⟩
  · exact newline_not_mem_append.mpr ⟨by simp, Symbol.newline_not_mem_text _⟩
  · exact newline_not_mem_append.mpr ⟨by simp, h⟩
  · exact newline_not_mem_append.mpr ⟨by simp, h⟩
  · simp

theorem newline_not_mem_describe (h : t.kind = .endOfInput ∨ '\n' ∉ t.value.plain.toList) :
    '\n' ∉ t.describe.toList := by
  have hquote {front s : String} (hfront : '\n' ∉ front.toList) (hs : '\n' ∉ s.toList) :
      '\n' ∉ (front ++ s ++ "'").toList :=
    newline_not_mem_append.mpr ⟨newline_not_mem_append.mpr ⟨hfront, hs⟩, by simp⟩
  unfold describe
  split
  · simp
  · exact hquote (by simp) (Keyword.newline_not_mem_text _)
  · exact hquote (by simp) (Symbol.newline_not_mem_text _)
  · rename_i hk
    exact newline_not_mem_append.mpr ⟨by simp, h.resolve_left (by simp [hk])⟩
  · rename_i hk
    exact hquote (by simp) (h.resolve_left (by simp [hk]))

/-- The tokens of a text are the end of the input, or their values have no newline. -/
theorem newline_not_mem_of_mem_tokens {s : String} (h : t ∈ (Lexer.run (Cursor.ofText s)).tokens) :
    t.kind = .endOfInput ∨ '\n' ∉ t.value.plain.toList := by
  rcases standsIn_of_mem_tokens h with ⟨before, span, rest, -, -, hmunch⟩ | ⟨hk, -⟩
  · exact .inr hmunch.lexeme.newline_not_mem_plain
  · exact .inl hk

end Token

/-! ### Diagnostics -/

/-- A diagnostic is one line if its cause is. -/
theorem Diagnostic.newline_not_mem_line {d : Diagnostic} (h : '\n' ∉ d.cause.message.toList) :
    '\n' ∉ d.line.toList := by
  have hstage : '\n' ∉ d.cause.stage.text.toList := by
    cases d.cause.stage <;> simp [Stage.text]
  have hrender : '\n' ∉ d.render.toList := by
    unfold render
    split
    · exact newline_not_mem_append.mpr
        ⟨newline_not_mem_append.mpr ⟨d.position.newline_not_mem_text, by simp⟩, h⟩
    · exact h
  exact newline_not_mem_append.mpr ⟨newline_not_mem_append.mpr ⟨hstage, by simp⟩, hrender⟩

theorem Grammar.Situation.newline_not_mem_production (σ : Situation) :
    '\n' ∉ σ.production.text.toList := by
  have hopening (o : Opening) : '\n' ∉ o.production.text.toList := by
    cases o <;> simp [Opening.production, Production.text]
  match σ with
  | ⟨true, _⟩ => simp [production, Production.text]
  | ⟨false, o :: _⟩ => exact hopening o
  | ⟨false, []⟩ => exact hopening .input

section Reports

variable {s : String} {d : Diagnostic}

theorem Lexical.Fault.newline_not_mem {rest : List Char} {report : Position → LexError}
    {p : Position} (h : Fault rest report) (hd : (report p).failure = .reported d) :
    '\n' ∉ d.cause.message.toList := by
  have hnumber {w : String} {fault : NumberFault} (hw : '\n' ∉ w.toList) :
      '\n' ∉ (Cause.malformedNumber w fault.text).message.toList := by
    have hfault : '\n' ∉ fault.text.toList := by
      cases fault <;> simp [NumberFault.text]
    unfold Cause.message
    simp only [newline_not_mem_append]
    exact ⟨⟨⟨by simp, hw⟩, by simp⟩, hfault⟩
  cases h with
  | noLexeme =>
    cases hd
    exact newline_not_mem_append.mpr ⟨by simp, newline_not_mem_quoted _⟩
  | letters hds hw =>
    cases hd
    refine hnumber (newline_not_mem_append.mpr ⟨?_, newline_not_mem_of_isWord hw⟩)
    rw [String.toList_ofList]
    exact newline_not_mem_of_isDigits hds
  | tooLarge hds =>
    cases hd
    refine hnumber ?_
    rw [String.toList_ofList]
    exact newline_not_mem_of_isDigits hds

theorem newline_not_mem_of_run {l : LexError} (h : (Lexer.run (Cursor.ofText s)).error? = some l)
    (hd : l.failure = .reported d) : '\n' ∉ d.line.toList := by
  obtain ⟨before, ts, last, gap, left, -, -, hend, -⟩ := exists_division s.toList
  rw [← Cursor.ofText_eq_between, h] at hend
  cases hend with
  | fault hfault => exact Diagnostic.newline_not_mem_line (hfault.newline_not_mem hd)
  | tooManyDigits => cases hd

/-- What is reported of a text without a tree is one line. -/
theorem newline_not_mem_of_parse {err : ParseError} (h : parse s = .error err)
    (hd : err.failure = .reported d) : '\n' ∉ d.line.toList := by
  cases err with
  | lexical l => exact newline_not_mem_of_run (run_of_parseWithin_lexical h).1 hd
  | unexpected t production =>
    obtain ⟨ts, rest, σ, htok, -, -, -, rfl⟩ := run_of_parseWithin_unexpected h
    have hvalue := Token.newline_not_mem_of_mem_tokens (s := s) (t := t) (by simp [htok])
    cases hd
    refine Diagnostic.newline_not_mem_line ?_
    unfold Diagnostic.ofToken Cause.message
    simp only [newline_not_mem_append]
    exact ⟨⟨⟨by simp, Token.newline_not_mem_describe hvalue⟩, by simp⟩,
      σ.newline_not_mem_production⟩
  | slotOccupied | tooDeep => cases hd

/-- What is reported of a text without a value is one line. -/
theorem newline_not_mem_of_blames {e : Expr} {err : EvalError} (he : parse s = .ok e)
    (h : Evaluation.Blames e err) (hd : err.failure = .reported d) : '\n' ∉ d.line.toList := by
  refine Diagnostic.newline_not_mem_line ?_
  cases h with
  | @undefined p op l r err hmem hundefined =>
    have hop : '\n' ∉ op.text.toList := by
      cases op <;> simp [ArithmeticOp.text]
    cases hundefined <;> cases hd <;> unfold Cause.message <;> simp only [newline_not_mem_append]
    · exact ⟨⟨by simp, hop⟩, by simp⟩
    · exact ⟨⟨by simp, hop⟩, by simp⟩
  | unbound hmem =>
    obtain ⟨w, hw, hname⟩ := (standsIn_of_parseWithin he _ hmem).exists_name
    cases hw
    cases hd
    unfold Cause.message
    simp only [newline_not_mem_append]
    exact ⟨⟨by simp, newline_not_mem_of_isWord hname.1⟩, by simp⟩

end Reports
end ExprLang

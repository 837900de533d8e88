import ExprLang.Failure
import ExprLang.Proofs.Evaluation.Soundness

/-! Every diagnostic points at its culprit.

    Where a diagnostic of a text points, the text goes on with what the diagnostic is about: the
    character, the malformed number, the token, the operator or the name (`Cause.Opens`). A lexical
    diagnostic is a fault at the end of the division of the text, an unexpected token stands in the
    text, and for an error of the evaluation a node is to blame, which has the position of its
    token. -/

namespace ExprLang

open Lexical

/-- What a cause is about stands at the front of some characters. The end of the input is
    unexpected where there are none. -/
def Cause.Opens (rest : List Char) : Cause → Prop
  | .unexpectedChar w => w.length = 1 ∧ Text.Opens w rest
  | .malformedNumber w _ | .divisionByZero w | .overflow w => Text.Opens w rest
  | .unexpectedToken t _ =>
    if t.kind = .endOfInput then rest = []
    else ∃ span more, rest = span ++ more ∧ Munch span more t.kind t.value
  | .unbound name => ∃ w, name = .text w ∧ Text.Opens w rest
  | .other .. | .unreadable .. => False

/-- The position of a diagnostic is that of a place in a text, and what the diagnostic is about
    stands there. -/
def Diagnostic.PointsInto (text : List Char) (d : Diagnostic) : Prop :=
  ∃ before rest, text = before ++ rest ∧ d.position = .behind before ∧ d.cause.Opens rest

section Sources

variable {text : List Char} {s : String} {d : Diagnostic}

/-- A fault is reported with the characters that it consists of. -/
theorem Lexical.Fault.opens {rest : List Char} {report : Position → LexError} {p : Position}
    (h : Fault rest report) (hd : (report p).failure = .reported d) :
    d.position = p ∧ d.cause.Opens rest := by
  cases h with
  | @noLexeme c cs =>
    cases hd
    exact ⟨rfl, by simp, Text.opens_append (String.toList_singleton c) (by simp) cs⟩
  | @letters ds rest w hds =>
    cases hd
    have hw : (String.ofList ds ++ w).toList = ds ++ w.toList := by simp
    refine ⟨rfl, ?_⟩
    rw [← List.append_assoc]
    exact Text.opens_append hw (List.append_ne_nil_of_left_ne_nil hds.1 _) rest
  | @tooLarge ds rest hds =>
    cases hd
    exact ⟨rfl, Text.opens_append String.toList_ofList hds.1 rest⟩

/-- A lexical diagnostic points at its fault. -/
theorem pointsInto_of_lexical {l : LexError}
    (h : (Lexer.run (Cursor.ofText s)).error? = some l) (hd : l.failure = .reported d) :
    d.PointsInto s.toList := by
  obtain ⟨before, ts, last, gap, left, hdiv, -, hend, -⟩ := exists_division s.toList
  rw [← Cursor.ofText_eq_between, h] at hend
  cases hend with
  | fault hfault =>
    obtain ⟨hpos, hopens⟩ := hfault.opens hd
    exact ⟨before ++ gap, left, by rw [hdiv.eq_append, List.append_assoc], hpos, hopens⟩
  | tooManyDigits => cases hd

/-- A token that is read from a text is reported where it stands. -/
theorem pointsInto_of_mem_tokens {t : Token} (h : t ∈ (Lexer.run (Cursor.ofText s)).tokens)
    (production : String) : (Diagnostic.ofToken t production).PointsInto s.toList := by
  rcases standsIn_of_mem_tokens h with ⟨before, span, rest, htext, hpos, hmunch⟩ | ⟨hk, hpos⟩
  · refine ⟨before, span ++ rest, htext, hpos, ?_⟩
    simp only [Diagnostic.ofToken, Cause.Opens, if_neg hmunch.lexeme.ne_endOfInput]
    exact ⟨span, rest, rfl, hmunch⟩
  · exact ⟨s.toList, [], by simp, hpos, by simp [Diagnostic.ofToken, Cause.Opens, hk]⟩

/-- An error that a node is to blame for points at the node. -/
theorem pointsInto_of_blames {e : Expr} {err : EvalError} (he : ∀ x ∈ e.nodes, x.StandsIn text)
    (h : Evaluation.Blames e err) (hd : err.failure = .reported d) : d.PointsInto text := by
  cases h with
  | undefined hmem hundefined =>
    obtain ⟨before, rest, htext, hpos, hopens⟩ := (he _ hmem).exists_place rfl
    cases hundefined <;> cases hd <;> exact ⟨before, rest, htext, hpos, hopens⟩
  | unbound hmem =>
    obtain ⟨before, rest, htext, hpos, hopens⟩ := (he _ hmem).exists_place rfl
    cases hd
    exact ⟨before, rest, htext, hpos, _, rfl, hopens⟩

/-- What is reported when a text is read points into the text. -/
theorem pointsInto_of_parseWithin {depth : Nat} {err : ParseError}
    (h : parseWithin depth s = .error err) (hd : err.failure = .reported d) :
    d.PointsInto s.toList := by
  cases err with
  | lexical l => exact pointsInto_of_lexical (run_of_parseWithin_lexical h).1 hd
  | unexpected t production =>
    obtain ⟨ts, rest, σ, htok, -⟩ := run_of_parseWithin_unexpected h
    cases hd
    exact pointsInto_of_mem_tokens (by simp [htok]) production.text
  | slotOccupied | tooDeep => cases hd

end Sources

/-- Every diagnostic of reading and evaluating a text has a known position and points at what it is
    about. -/
theorem evaluateTextWithin_pointsInto {depth : Nat} {s : String} {d : Diagnostic}
    (h : evaluateTextWithin depth s = .error (.reported d)) :
    1 ≤ d.position.line ∧ 1 ≤ d.position.column ∧ d.PointsInto s.toList := by
  have hpoints : d.PointsInto s.toList := by
    cases hparse : parseWithin depth s with
    | error err =>
      rw [evaluateTextWithin_of_error hparse] at h
      exact pointsInto_of_parseWithin hparse (Except.error.inj h)
    | ok e =>
      rw [evaluateTextWithin_of_ok hparse] at h
      have hyields := Evaluation.evaluate_of_parseWithin hparse
      cases heval : Evaluation.evaluate e with
      | error err =>
        rw [heval] at h hyields
        exact pointsInto_of_blames (standsIn_of_parseWithin hparse) hyields (Except.error.inj h)
      | ok v =>
        rw [heval] at h
        cases h
  obtain ⟨before, rest, -, hpos, -⟩ := id hpoints
  rw [hpos]
  exact ⟨Position.one_le_line_behind before, Position.one_le_column_behind before, hpoints⟩

/-- A comment and a newline in front of `7 % 0` do not hide the percent sign. -/
theorem evaluateTextWithin_pointsInto_remainder :
    evaluateTextWithin 50 "1 + // sum\n 7 % 0" =
      .error (.reported ⟨.divisionByZero "%", ⟨2, 4⟩⟩) ∧
    ∃ before rest, "1 + // sum\n 7 % 0".toList = before ++ rest ∧
      (⟨2, 4⟩ : Position) = .behind before ∧ Text.Opens "%" rest := by
  let e : Expr := .binary ⟨1, 3⟩ (.text "+") (.integer ⟨1, 1⟩ (.number 1))
    (.binary ⟨2, 4⟩ (.text "%") (.integer ⟨2, 2⟩ (.number 7)) (.integer ⟨2, 6⟩ (.number 0)))
  have hparse : parseWithin 50 "1 + // sum\n 7 % 0" = .ok e := by rfl
  have heval : Evaluation.evaluate e = .error (.divisionByZero "%" ⟨2, 4⟩) := by
    rw [Evaluation.evaluate, Evaluation.Machine.start, Evaluation.Machine.run_eval]
    rfl
  have h : evaluateTextWithin 50 "1 + // sum\n 7 % 0" =
      .error (.reported ⟨.divisionByZero "%", ⟨2, 4⟩⟩) := by
    rw [evaluateTextWithin_of_ok hparse, heval]
    rfl
  exact ⟨h, (evaluateTextWithin_pointsInto h).2.2⟩

end ExprLang

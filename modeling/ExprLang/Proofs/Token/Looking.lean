import ExprLang.Proofs.Expr.SourceOrder
import ExprLang.Proofs.Token.Refusal
import ExprLang.Proofs.Token.Remainder

/-! Looking twice.

    A look at a stream leaves what it shows: a token lies in the slot, and a character that begins no
    token is still under the cursor. A number that is refused is not left. The cursor has come behind
    it when the failure is known, so that the next look finds what stands there (`peek_again`). -/

namespace ExprLang

/-- Going through some characters leads to a later position. -/
theorem Position.before_afterAll (p : Position) {cs : List Char} (h : cs ≠ []) :
    p.Before (p.afterAll cs) := by
  induction cs generalizing p with
  | nil => exact absurd rfl h
  | cons c cs ih =>
    rw [afterAll_cons]
    by_cases hcs : cs = []
    · rw [hcs]
      exact before_after p c
    · exact (before_after p c).trans (ih (p.after c) hcs)

namespace Lexical

open Lexer Text

variable {c c' : Cursor} {e : LexError}

/-- What is skipped in front of a token is all the trivia there. -/
theorem skips_skipTrivia (c : Cursor) : ∃ gap, c.rest = gap ++ c.skipTrivia.rest ∧
    Skips gap c.skipTrivia.rest ∧ c.skipTrivia = c.pass gap.length := by
  obtain ⟨gap, rest, heq, hskips⟩ := exists_skips c.rest
  have hskip : c.skipTrivia = c.pass gap.length := by
    rw [Cursor.skipTrivia, heq, triviaLength_eq hskips]
  have hrest : c.skipTrivia.rest = rest := hskip ▸ rest_pass_length heq
  rw [hrest]
  exact ⟨gap, heq, hskips, hskip⟩

/-- Behind the trivia the same is read as in front of it. -/
theorem next_skipTrivia (c : Cursor) : next c.skipTrivia = next c := by
  obtain ⟨gap, -, hskips, -⟩ := skips_skipTrivia c
  rw [next_of_significant hskips.2, next]

/-- A malformed number is reported where it begins, behind the trivia. -/
theorem position_of_malformedNumber {w : String} {f : NumberFault} {p : Position}
    (h : next c = .error (.malformedNumber w f p) c') : p = c.skipTrivia.position := by
  cases refusal_lexeme h with
  | letters | range => rfl

/-- No number is refused twice: what is reported behind some characters is reported elsewhere. -/
theorem next_pass_ne_malformedNumber {n : Nat} (hn : 0 < n) (hc : c.rest ≠ []) {w : String}
    {f : NumberFault} : outcomeOf (next (c.pass n)) ≠ .error (.malformedNumber w f c.position) := by
  intro h
  obtain ⟨gap, -, -, hskip⟩ := skips_skipTrivia (c.pass n)
  have hbefore : c.position.Before (c.pass n).skipTrivia.position := by
    rw [hskip, Cursor.pass_pass]
    refine c.position.before_afterAll (List.ne_nil_of_length_pos ?_)
    have hlength := List.length_pos_iff.mpr hc
    rw [List.length_take]
    omega
  cases hnext : next (c.pass n) with
  | ok t c' =>
    rw [hnext] at h
    cases h
  | error e c' =>
    rw [hnext] at h
    obtain rfl : e = .malformedNumber w f c.position := by injection h
    exact hbefore.ne (position_of_malformedNumber hnext)

/-- What is left of a failure to read a token: a character that begins none is still there, and a
    number is gone. -/
theorem next_refused (h : next c = .error e c') :
    (∃ d p, e = .unexpectedChar d p ∧ c'.current? = some d ∧ next c' = .error e c') ∨
    (∃ w f p gap, e = .malformedNumber w f p ∧ c.rest = gap ++ (w.toList ++ c'.rest) ∧
      Skips gap (w.toList ++ c'.rest) ∧ outcomeOf (next c') ≠ .error e) ∨
    ∃ ds gap, e = .tooManyDigits ds.length ∧ IsDigits ds ∧ c.rest = gap ++ (ds ++ c'.rest) ∧
      Skips gap (ds ++ c'.rest) := by
  obtain ⟨gap, heq, hskips, -⟩ := skips_skipTrivia c
  have hrefusal : Refusal c.skipTrivia e c' := refusal_lexeme h
  have hagain := next_skipTrivia c
  generalize c.skipTrivia = c₀ at heq hskips hrefusal hagain
  cases hrefusal with
  | @character d hd => exact .inl ⟨d, _, rfl, hd, hagain.trans h⟩
  | @letters ds rest w hrest hds hw =>
    rw [← List.append_assoc] at hrest
    have hspan : (String.ofList ds ++ w).toList = ds ++ w.toList := by
      rw [String.toList_append, String.toList_ofList]
    have hdigits := List.length_pos_iff.mpr hds.1
    have hne : c₀.rest ≠ [] := by simp [hrest, hds.1]
    rw [← List.length_append]
    refine .inr (.inl ⟨_, _, _, gap, rfl, ?_⟩)
    rw [hspan, rest_pass_length hrest, ← hrest, List.length_append]
    exact ⟨heq, hskips, next_pass_ne_malformedNumber (by omega) hne⟩
  | @range ds rest hrest hds =>
    have hdigits := List.length_pos_iff.mpr hds.1
    have hne : c₀.rest ≠ [] := by simp [hrest, hds.1]
    refine .inr (.inl ⟨_, _, _, gap, rfl, ?_⟩)
    rw [String.toList_ofList, rest_pass_length hrest, ← hrest]
    exact ⟨heq, hskips, next_pass_ne_malformedNumber hdigits hne⟩
  | @tooManyDigits ds rest hrest hds =>
    refine .inr (.inr ⟨ds, gap, rfl, hds, ?_⟩)
    rw [rest_pass_length hrest, ← hrest]
    exact ⟨heq, hskips⟩

end Lexical

namespace TokenStream

open Lexical

/-- A look fails if the slot is empty and no token can be read, and the slot stays empty. -/
theorem peek_error {s s' : TokenStream} {e : LexError} (h : peek s = .error e s') :
    s.pending = none ∧ s'.pending = none ∧ Lexer.next s.cursor = .error e s'.cursor := by
  obtain ⟨c, p⟩ := s
  cases p with
  | some t => cases h
  | none =>
    obtain ⟨c', hc', rfl⟩ := next_empty_eq_error (peek_eq_error_iff.mp h)
    exact ⟨rfl, rfl, hc'⟩

/-- Looking at an empty slot and taking from it give what the cursor gives. -/
theorem outcomeOf_empty (c : Cursor) : outcomeOf (peek ⟨c, none⟩) = outcomeOf (Lexer.next c) ∧
    outcomeOf (next ⟨c, none⟩) = outcomeOf (Lexer.next c) := by
  rw [next_empty]
  unfold peek
  dsimp only
  cases Lexer.next c <;> exact ⟨rfl, rfl⟩

/-- A token that is seen is seen again and comes out next, and so does the failure over a character
    that begins no token. A malformed number is seen once: the look has passed over all of it, and
    neither the next look nor the next token can give the same failure. A run of too many digits is
    passed over, too. -/
theorem peek_again (s : TokenStream) :
    (∀ t s', peek s = .ok t s' → peek s' = .ok t s' ∧ outcomeOf (next s') = .ok t) ∧
    ∀ e s', peek s = .error e s' → s'.pending = none ∧
      ((∃ d p, e = .unexpectedChar d p ∧ s'.cursor.current? = some d ∧
        peek s' = .error e s' ∧ next s' = .error e s') ∨
      (∃ w f p gap, e = .malformedNumber w f p ∧
        s.cursor.rest = gap ++ (w.toList ++ s'.cursor.rest) ∧ Skips gap (w.toList ++ s'.cursor.rest) ∧
        outcomeOf (peek s') ≠ .error e ∧ outcomeOf (next s') ≠ .error e) ∨
      ∃ ds gap, e = .tooManyDigits ds.length ∧ Text.IsDigits ds ∧
        s.cursor.rest = gap ++ (ds ++ s'.cursor.rest) ∧ Skips gap (ds ++ s'.cursor.rest)) := by
  refine ⟨fun t s' h => ⟨peek_peek h, ?_⟩, fun e s' h => ?_⟩
  · rw [next_eq_of_peek h, (next_of_peek h).2]
    rfl
  · obtain ⟨-, hempty, hnext⟩ := peek_error h
    obtain ⟨c', p⟩ := s'
    obtain rfl : p = none := hempty
    obtain ⟨hpeek, htake⟩ := outcomeOf_empty c'
    refine ⟨rfl, ?_⟩
    rcases next_refused hnext with ⟨d, p, he, hd, hagain⟩ | ⟨w, f, p, gap, he, heq, hskips, hne⟩ |
      ⟨ds, gap, he, hds, heq, hskips⟩
    · have htaken : next ⟨c', none⟩ = .error e ⟨c', none⟩ := by rw [next_empty, hagain]
      exact .inl ⟨d, p, he, hd, peek_eq_error_iff.mpr htaken, htaken⟩
    · exact .inr (.inl ⟨w, f, p, gap, he, heq, hskips, hpeek ▸ hne, htake ▸ hne⟩)
    · exact .inr (.inr ⟨ds, gap, he, hds, heq, hskips⟩)

/-- In the text `1 12ab` the number is seen again, and behind it the failure over `12ab` is not. -/
theorem peek_again_letters :
    let s := stateOf (next (ofText "1 12ab"))
    outcomeOf (peek (stateOf (peek (ofText "1 12ab")))) =
      .ok ⟨.integer, .number 1, ⟨1, 1⟩⟩ ∧
    outcomeOf (peek s) = .error (.malformedNumber "12ab" .letters ⟨1, 3⟩) ∧
    outcomeOf (peek (stateOf (peek s))) ≠ .error (.malformedNumber "12ab" .letters ⟨1, 3⟩) := by
  intro s
  obtain ⟨hagain, -⟩ := (peek_again (ofText "1 12ab")).1 _ (stateOf (peek (ofText "1 12ab"))) rfl
  obtain ⟨-, h⟩ := (peek_again s).2 (.malformedNumber "12ab" .letters ⟨1, 3⟩) (stateOf (peek s)) rfl
  refine ⟨by rw [hagain]; rfl, rfl, ?_⟩
  rcases h with ⟨d, p, he, -⟩ | ⟨w, f, p, gap, -, -, -, hne, -⟩ | ⟨ds, gap, he, -⟩
  · cases he
  · exact hne
  · cases he

/-- The failure over `12ab` is not seen again, although it was only looked at: the end of the text
    is. -/
theorem peek_of_letters :
    outcomeOf (peek (ofText "12ab")) = .error (.malformedNumber "12ab" .letters ⟨1, 1⟩) ∧
    outcomeOf (peek (stateOf (peek (ofText "12ab")))) = .ok ⟨.endOfInput, .absent, ⟨1, 5⟩⟩ ∧
    outcomeOf (next (stateOf (peek (ofText "12ab")))) = .ok ⟨.endOfInput, .absent, ⟨1, 5⟩⟩ := by
  decide

end TokenStream
end ExprLang

import ExprLang.Proofs.Evaluation.Soundness
import ExprLang.Proofs.Expr.Correspondence

/-! Layout does not matter.

    Two texts may differ in blanks, comments and leading zeros and consist of the same tokens all the
    same, which then stand at other places. Out of the streams of such texts the same is to come but
    for the places (`ahead_of_tokensOf`), so they are read alike; their trees differ in nothing but
    places, and so does what is said when there is none. And as no value depends on a place, the
    texts have the same value, or their evaluation fails alike. -/

namespace ExprLang

open TokenStream

/-- A token without its position. -/
def Token.unplaced (t : Token) : Token := ⟨t.kind, t.value, .unknown⟩

/-- A cause without positions: that of the token that it may be about is left out. -/
def Cause.unplaced : Cause → Cause
  | .unexpectedToken t production => .unexpectedToken t.unplaced production
  | c => c

/-- Two texts are read alike: they have trees that are the same but for positions and look the same,
    or the same token does not fit in the same production, or there is not enough depth for
    either. -/
inductive ReadAlike : Except ParseError Expr → Except ParseError Expr → Prop
  | tree {e e' : Expr} {line : String} : e.unplaced = e'.unplaced →
    (∀ indent, e.outline indent = e'.outline indent) →
    e.surfaceText? = some line → e'.surfaceText? = some line → ReadAlike (.ok e) (.ok e')
  | unexpected {t t' : Token} (production : Production) : t.unplaced = t'.unplaced →
    ReadAlike (.error (.unexpected t production)) (.error (.unexpected t' production))
  | tooDeep : ReadAlike (.error .tooDeep) (.error .tooDeep)

/-- Two texts are evaluated alike: they have the same number, or something is wrong in both for the
    same cause, or there is not enough depth for either. -/
inductive EvaluatedAlike : Except Failure Value → Except Failure Value → Prop
  | number (n : Int) : EvaluatedAlike (.ok (.number n)) (.ok (.number n))
  | reported {d d' : Diagnostic} : d.cause.unplaced = d'.cause.unplaced →
    EvaluatedAlike (.error (.reported d)) (.error (.reported d'))
  | tooDeep : EvaluatedAlike (.error .tooDeep) (.error .tooDeep)

/-! ### The same tokens -/

namespace Lexer

variable {f : Position → Position}

/-- A run without a failure begins with a token, and that is all if it is the end of the input. -/
theorem next_of_run {c : Cursor} (h : (run c).error? = none) : ∃ t c', next c = .ok t c' ∧
    (t.kind = .endOfInput ∧ (run c).tokens = [t] ∨ t.kind ≠ .endOfInput ∧
      (run c).tokens = t :: (run c').tokens ∧ (run c').error? = none) := by
  rw [run] at h ⊢
  cases hn : next c with
  | error e c' =>
    rw [hn] at h
    cases h
  | ok t c' =>
    rw [hn] at h
    refine ⟨t, c', rfl, ?_⟩
    by_cases ht : t.kind = .endOfInput
    · exact .inl ⟨ht, by simp only [ht, dite_true]⟩
    · simp only [ht, dite_false] at h ⊢
      exact .inr ⟨ht, trivial, h⟩

theorem outcomes_of_next {c c' : Cursor} {t : Token} (h : next c = .ok t c') :
    outcomes c = Stream'.cons (.ok t) (outcomes c') := by
  have hhead : (outcomes c).head = .ok t := by
    rw [head_outcomes, h]
    rfl
  have htail : (outcomes c).tail = outcomes c' := by
    rw [tail_outcomes, h]
    rfl
  rw [← hhead, ← htail, Stream'.eta]

/-- Two runs without a failure that give the same tokens but for places go on in the same way for
    ever. -/
theorem outcomes_relocate (c c' : Cursor) (h : (run c).error? = none) (h' : (run c').error? = none)
    (hts : (run c).tokens.map (Token.relocate f) = (run c').tokens.map (Token.relocate f)) :
    (outcomes c).map (Except.map (Token.relocate f)) =
      (outcomes c').map (Except.map (Token.relocate f)) := by
  obtain ⟨t', c₁', hn', hrun'⟩ := next_of_run h'
  fun_induction run c generalizing c' t' c₁' with
  | case1 c e c₁ hn => cases h
  | case2 c t c₁ hn ht =>
    rcases hrun' with ⟨ht', htokens⟩ | ⟨ht', htokens, -⟩
    · rw [htokens] at hts
      have hlike : t.relocate f = t'.relocate f := (List.cons.inj hts).1
      rw [outcomes_endOfInput hn ht, outcomes_endOfInput hn' ht', Stream'.map_const,
        Stream'.map_const]
      exact congrArg (fun u => Stream'.const (Except.ok u)) hlike
    · rw [htokens] at hts
      have hlike : t.Like f t' := (List.cons.inj hts).1
      exact absurd (hlike.kind_eq.trans ht) ht'
  | case3 c t c₁ hn ht r ih =>
    rcases hrun' with ⟨ht', htokens⟩ | ⟨-, htokens, herror⟩
    · rw [htokens] at hts
      have hlike : t.Like f t' := (List.cons.inj hts).1
      exact absurd (hlike.kind_eq.symm.trans ht') ht
    · rw [htokens] at hts
      obtain ⟨hlike, hrest⟩ := List.cons.inj hts
      obtain ⟨u, c₂, hnext, hrun⟩ := next_of_run herror
      have htail := ih c₁' h herror hrest u c₂ hnext hrun
      rw [outcomes_of_next hn, outcomes_of_next hn', Stream'.map_cons, Stream'.map_cons, htail]
      exact congrArg (fun u => Stream'.cons (Except.ok u) _) hlike

end Lexer

section Texts

variable {s s' : String} {ts ts' : List Token} {e e' : Expr} {depth : Nat}

/-- Out of two texts with the same tokens but for places, the same is to come but for places. -/
theorem ahead_of_tokensOf {f : Position → Position} (h : tokensOf s = .ok ts)
    (h' : tokensOf s' = .ok ts') (hts : ts.map (Token.relocate f) = ts'.map (Token.relocate f)) :
    Parser.Ahead f (ofText s) (ofText s') := by
  obtain ⟨rfl, herror⟩ := tokensOf_eq_ok_iff.mp h
  obtain ⟨rfl, herror'⟩ := tokensOf_eq_ok_iff.mp h'
  exact Lexer.outcomes_relocate _ _ herror herror' hts

/-- Trees that are the same but for positions look the same. -/
theorem readAlike_of_unplaced (h : e.unplaced = e'.unplaced) : ReadAlike (.ok e) (.ok e') := by
  have houtline : ∀ indent, e.outline indent = e'.outline indent := by
    intro indent
    rw [← e.outline_relocate fun _ => .unknown, e.relocate_unknown, h, ← e'.relocate_unknown,
      e'.outline_relocate]
  have hsurface : e.surface = e'.surface := by
    rw [← e.surface_relocate fun _ => .unknown, e.relocate_unknown, h, ← e'.relocate_unknown,
      e'.surface_relocate]
  exact .tree h houtline e.surfaceText?_eq (hsurface ▸ e'.surfaceText?_eq)

/-- Texts with the same tokens but for positions are read alike. -/
theorem parseWithin_readAlike (h : tokensOf s = .ok ts) (h' : tokensOf s' = .ok ts')
    (hts : ts.map Token.unplaced = ts'.map Token.unplaced) (depth : Nat) :
    ReadAlike (parseWithin depth s) (parseWithin depth s') := by
  have hmatch := Parser.parallel_complete (fun _ => .unknown) depth _ _ (ahead_of_tokensOf h h' hts)
  have hlexical : ∀ l, parseWithin depth s ≠ .error (.lexical l) := by
    intro l hl
    have herror := (run_of_parseWithin_lexical hl).1
    rw [(tokensOf_eq_ok_iff.mp h).2] at herror
    cases herror
  unfold parseWithin at hlexical ⊢
  cases hc : Parser.complete depth (ofText s) with
  | ok e u =>
    cases hc' : Parser.complete depth (ofText s') with
    | ok e' u' =>
      rw [hc, hc'] at hmatch
      have htree := hmatch.1
      rw [Expr.Like, e.relocate_unknown, e'.relocate_unknown] at htree
      exact readAlike_of_unplaced htree
    | error err' u' =>
      rw [hc, hc'] at hmatch
      exact hmatch.elim
  | error err u =>
    cases hc' : Parser.complete depth (ofText s') with
    | ok e' u' =>
      rw [hc, hc'] at hmatch
      exact hmatch.elim
    | error err' u' =>
      rw [hc, hc'] at hmatch
      obtain ⟨herr, hslot, -⟩ := hmatch
      cases err with
      | lexical l => exact absurd (by rw [hc]) (hlexical l)
      | unexpected t production =>
        cases err' with
        | unexpected t' production' =>
          obtain ⟨ht, rfl⟩ := ParseError.unexpected.inj herr
          exact .unexpected production ht
        | lexical | slotOccupied | tooDeep => cases herr
      | slotOccupied o => exact absurd rfl (hslot o)
      | tooDeep =>
        cases err' with
        | tooDeep => exact .tooDeep
        | lexical | slotOccupied | unexpected => cases herr

/-- An error that a tree is to blame for is reported with its cause, and the same error at another
    place with the same cause. -/
theorem reported_of_blames {err err' : EvalError} (h : Evaluation.Blames e err)
    (herr : (err.relocate fun _ => .unknown) = err'.relocate fun _ => .unknown) :
    EvaluatedAlike (.error err.failure) (.error err'.failure) := by
  cases h with
  | undefined _ hundefined =>
    cases hundefined <;> cases err' <;> cases herr <;> exact .reported rfl
  | unbound =>
    cases err' <;> cases herr
    exact .reported rfl

/-- Trees that are the same but for positions are evaluated alike. -/
theorem evaluate_alike (he : e.unplaced = e'.unplaced)
    (hsound : Evaluation.Yields Value.Fits (Evaluation.Blames e) (Evaluation.evaluate e)) :
    EvaluatedAlike ((Evaluation.evaluate e).mapError EvalError.failure)
      ((Evaluation.evaluate e').mapError EvalError.failure) := by
  rcases Evaluation.evaluate_agrees (congrArg Expr.eval he) with
    ⟨v, hv, hv'⟩ | ⟨err, err', hv, hv', herr⟩
  · rw [hv] at hsound
    obtain ⟨n, rfl, -⟩ := hsound
    rw [hv, hv']
    exact .number n
  · rw [hv] at hsound
    rw [hv, hv']
    exact reported_of_blames hsound herr

/-- Texts that are read alike are evaluated alike. -/
theorem evaluateTextWithin_alike (h : ReadAlike (parseWithin depth s) (parseWithin depth s')) :
    EvaluatedAlike (evaluateTextWithin depth s) (evaluateTextWithin depth s') := by
  cases hp : parseWithin depth s with
  | ok e =>
    cases hp' : parseWithin depth s' with
    | ok e' =>
      rw [hp, hp'] at h
      rw [evaluateTextWithin_of_ok hp, evaluateTextWithin_of_ok hp']
      cases h with
      | tree he => exact evaluate_alike he (Evaluation.evaluate_of_parseWithin hp)
    | error err' =>
      rw [hp, hp'] at h
      cases h
  | error err =>
    cases hp' : parseWithin depth s' with
    | ok e' =>
      rw [hp, hp'] at h
      cases h
    | error err' =>
      rw [hp, hp'] at h
      rw [evaluateTextWithin_of_error hp, evaluateTextWithin_of_error hp']
      cases h with
      | unexpected production ht =>
        exact .reported (congrArg (Cause.unexpectedToken · production.text) ht)
      | tooDeep => exact .tooDeep

/-- Layout does not matter. Two texts with tokens of the same kinds and values are read alike and
    evaluated alike, wherever the tokens stand and whatever depth there is. -/
theorem layout_independent (h : tokensOf s = .ok ts) (h' : tokensOf s' = .ok ts')
    (hts : ts.map Token.unplaced = ts'.map Token.unplaced) (depth : Nat) :
    ReadAlike (parseWithin depth s) (parseWithin depth s') ∧
      EvaluatedAlike (evaluateTextWithin depth s) (evaluateTextWithin depth s') :=
  have hread := parseWithin_readAlike h h' hts depth
  ⟨hread, evaluateTextWithin_alike hread⟩

end Texts

/-- A comment, a line break and a leading zero move the slash of `7 / (1-1)`, and what is said about
    it is the same. -/
theorem layout_independent_slash : ∃ ts ts', tokensOf "7 / (1-1)" = .ok ts ∧
    tokensOf "07 // seven\n/(1 - 1 )" = .ok ts' ∧ ts ≠ ts' ∧
    ts.map Token.unplaced = ts'.map Token.unplaced ∧
    ReadAlike (parseWithin 50 "7 / (1-1)") (parseWithin 50 "07 // seven\n/(1 - 1 )") ∧
    EvaluatedAlike (evaluateTextWithin 50 "7 / (1-1)")
      (evaluateTextWithin 50 "07 // seven\n/(1 - 1 )") := by
  have h : tokensOf "7 / (1-1)" = .ok [⟨.integer, .number 7, ⟨1, 1⟩⟩,
      ⟨.symbol .slash, .text "/", ⟨1, 3⟩⟩, ⟨.symbol .leftParen, .text "(", ⟨1, 5⟩⟩,
      ⟨.integer, .number 1, ⟨1, 6⟩⟩, ⟨.symbol .minus, .text "-", ⟨1, 7⟩⟩,
      ⟨.integer, .number 1, ⟨1, 8⟩⟩, ⟨.symbol .rightParen, .text ")", ⟨1, 9⟩⟩,
      ⟨.endOfInput, .absent, ⟨1, 10⟩⟩] := tokensOf_eq_ok_iff.mpr (by decide +kernel)
  have h' : tokensOf "07 // seven\n/(1 - 1 )" = .ok [⟨.integer, .number 7, ⟨1, 1⟩⟩,
      ⟨.symbol .slash, .text "/", ⟨2, 1⟩⟩, ⟨.symbol .leftParen, .text "(", ⟨2, 2⟩⟩,
      ⟨.integer, .number 1, ⟨2, 3⟩⟩, ⟨.symbol .minus, .text "-", ⟨2, 5⟩⟩,
      ⟨.integer, .number 1, ⟨2, 7⟩⟩, ⟨.symbol .rightParen, .text ")", ⟨2, 9⟩⟩,
      ⟨.endOfInput, .absent, ⟨2, 10⟩⟩] := tokensOf_eq_ok_iff.mpr (by decide +kernel)
  exact ⟨_, _, h, h', by decide, rfl, layout_independent h h' rfl 50⟩

end ExprLang

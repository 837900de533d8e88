import ExprLang.Proofs.Expr.Reading

/-! Where readers of expressions stop.

    Whoever reads several expressions from one stream relies on what a reader leaves there. A token
    that is reported lies in the slot, with all that comes in front of it taken and nothing behind
    it read; a token that cannot be read leaves the slot empty and the cursor where the lexer broke
    off (`GivesUp`). A reader that goes as far as it can leaves the first token that it has no use
    for in the slot; a reader that ends with a token of its own leaves the slot empty
    (`StopsAt`). -/

namespace ExprLang

open Grammar

namespace TokenStream

variable {s s' : TokenStream} {ts : List Token} {t : Token}

/-- The tokens `ts` were taken. The token behind them lies in the slot and comes out next, and
    nothing behind that one was read. -/
structure Holds (s : TokenStream) (ts : List Token) (t : Token) (s' : TokenStream) : Prop where
  taken : ∃ s₁, Takes s ts s₁ ∧ next s₁ = .ok t ⟨s'.cursor, none⟩
  slot : s'.pending = some t
  comes : next s' = .ok t ⟨s'.cursor, none⟩

/-- Some tokens were taken, and behind them the lexer failed. The slot is empty and the cursor stands
    where that failure left it. -/
structure BreaksOff (s : TokenStream) (e : LexError) (s' : TokenStream) : Prop where
  taken : ∃ ts c, Takes s ts ⟨c, none⟩ ∧ Lexer.next c = .error e s'.cursor
  slot : s'.pending = none

/-- A token that is seen is held. -/
theorem Sees.holds (h : Sees s ts (.ok t s')) : Holds s ts t s' := by
  obtain ⟨s₁, hts, hp⟩ := h
  obtain ⟨hs', hn⟩ := next_of_peek hp
  exact ⟨⟨s₁, hts, hn⟩, congrArg pending hs', by rw [next_eq_of_peek hp, hn]⟩

/-- Where a failure is seen, the reading breaks off. -/
theorem Sees.breaksOff {e : LexError} (h : Sees s ts (.error e s')) : BreaksOff s e s' := by
  obtain ⟨⟨c, slot⟩, hts, hp⟩ := h
  cases slot with
  | some t => cases hp
  | none =>
    obtain ⟨c', hc, rfl⟩ := next_empty_eq_error (peek_eq_error_iff.mp hp)
    exact ⟨⟨ts, c, hts, hc⟩, rfl⟩

/-- Behind a token that was taken the slot is empty. -/
theorem Takes.pending_eq_none (h : Takes s ts s') (hts : ts ≠ []) : s'.pending = none := by
  induction h with
  | nil => exact absurd rfl hts
  | @cons s s₁ s' t ts hn _ h ih =>
    cases ts with
    | nil =>
      cases h
      exact (peek_of_next hn).1
    | cons => exact ih (List.cons_ne_nil _ _)

end TokenStream

namespace Parser

open TokenStream

variable {s s' : TokenStream} {e : ParseError}

/-- What a reader that fails leaves behind. It never finds the slot taken. Where the depth runs out,
    nothing is said. -/
def GivesUp (s : TokenStream) : ParseError → TokenStream → Prop
  | .unexpected t _, s' => ∃ ts, Holds s ts t s'
  | .lexical e, s' => BreaksOff s e s'
  | .slotOccupied _, _ => False
  | .tooDeep, _ => True

theorem Fails.givesUp {σ : Situation} (h : Fails σ s e s') : GivesUp s e s' := by
  cases e with
  | lexical l =>
    obtain ⟨ts, σ', hs, -⟩ := h
    exact hs.breaksOff
  | unexpected t production =>
    obtain ⟨ts, σ', hs, -⟩ := h
    exact ⟨ts, hs.holds⟩
  | slotOccupied o => exact h
  | tooDeep => trivial

theorem givesUp_lexical {l : LexError} (h : TokenStream.peek s = .error l s') :
    GivesUp s (.lexical l) s' := Sees.breaksOff ⟨s, .nil s, h⟩

theorem givesUp_unexpected {t : Token} {production : Production}
    (h : TokenStream.peek s = .ok t s') : GivesUp s (.unexpected t production) s' :=
  ⟨[], Sees.holds ⟨s, .nil s, h⟩⟩

/-- A reader ends with the last token of what the category derives, and with an empty slot. -/
def EndsWithin (c : Category) (x : Parser Expr) (s : TokenStream) : Prop :=
  Ends x s (fun e s' => s'.pending = none ∧ ∃ ts, Takes s ts s' ∧ Derives c ts e) (GivesUp s)

/-- What each reader with a budget of `depth` leaves behind on any stream, its slot full or empty. -/
structure StopsAt (depth : Nat) : Prop where
  expect : ∀ kind production s, Ends (expect kind production) s
    (fun t s' => s'.pending = none ∧ t.kind = kind ∧ TokenStream.next s = .ok t s') (GivesUp s)
  primary : ∀ s, EndsWithin .primary (primary depth) s
  unary : ∀ s, EndsWithin .operand (unary depth) s
  conditional : ∀ s, EndsWithin .primary (conditional depth) s
  binary : ∀ left min s, Ends (binary depth left min) s
    (fun e s' => ∃ ks t, Holds s (chainTokens ks) t s' ∧
      (∀ k ∈ ks, k.Proper ∧ min ≤ (k.precedence : Int)) ∧ Grouped left ks e ∧
      (t.kind.precedence = 0 ∨ (t.kind.precedence : Int) < min)) (GivesUp s)
  expression : ∀ s, Ends (expression depth) s
    (fun e s' => ∃ ts t, Holds s ts t s' ∧ Sentence ts e ∧ t.kind.precedence = 0) (GivesUp s)
  complete : ∀ s, Ends (complete depth) s
    (fun e s' => ∃ ts t, Holds s ts t s' ∧ Sentence ts e ∧ t.kind = .endOfInput) (GivesUp s)

theorem expect_stops (kind : TokenKind) (production : Production) (s : TokenStream) :
    Ends (expect kind production) s
      (fun t s' => s'.pending = none ∧ t.kind = kind ∧ TokenStream.next s = .ok t s')
      (GivesUp s) := by
  rw [← bind_pure (expect kind production)]
  refine ends_expect (fun t s' hn hk => ?_) (fun _ _ hp _ => givesUp_unexpected hp)
    (fun _ _ he => givesUp_lexical he)
  exact ends_pure ⟨(peek_of_next hn).1, hk, hn⟩

/-- A reader of what a category derives takes at least one token, which empties the slot. -/
theorem ReadsOperand.endsWithin {c : Category} {x : Parser Expr} (h : ReadsOperand c x s) :
    EndsWithin c x s := by
  refine (h .input []).mono ?_ fun _ _ hf => hf.givesUp
  rintro e s' ⟨ts, hts, he⟩
  exact ⟨hts.pending_eq_none he.ne_nil, ts, hts, he⟩

/-- A token in front of an operand is no operand, and is reported. -/
theorem primary_stops (depth : Nat) (s : TokenStream) :
    EndsWithin .primary (primary depth) s := by
  by_cases hs : ∀ t s', TokenStream.peek s = .ok t s' → ¬ Leading t
  · exact ((readsAt depth).primary s hs).endsWithin
  · simp only [Classical.not_forall, Classical.not_not] at hs
    obtain ⟨t, s₁, hp, ht⟩ := hs
    cases depth with
    | zero => exact ends_throw trivial
    | succ depth =>
      refine ends_peek (fun u s' hu => ?_) (fun _ _ he => givesUp_lexical he)
      obtain ⟨rfl, -⟩ := peek_unique hp hu
      rcases ht with ht | ht <;> rw [ht] <;> exact ends_throw (givesUp_unexpected hu)

/-- A token other than the first word of a choice is reported. -/
theorem conditional_stops (depth : Nat) (s : TokenStream) :
    EndsWithin .primary (conditional depth) s := by
  by_cases hs : ∀ t s', TokenStream.peek s = .ok t s' → t.kind = .keyword .ifWord
  · exact ((readsAt depth).conditional s hs).endsWithin
  · simp only [Classical.not_forall] at hs
    obtain ⟨t, s₁, hp, ht⟩ := hs
    cases depth with
    | zero => exact ends_throw trivial
    | succ depth =>
      refine ends_expect (fun u s' hn hk => ?_) (fun _ _ hu _ => givesUp_unexpected hu)
        (fun _ _ he => givesUp_lexical he)
      obtain ⟨rfl, -⟩ := peek_unique hp (peek_of_next hn).2
      exact absurd hk ht

/-- Wherever a reader of expressions starts and however it ends, what it leaves behind is known. A
    token that it reports lies in the slot, everything in front of it was taken, and it comes out
    next. A failure of the lexer leaves the slot empty and the cursor where it broke off. Reading an
    expression, from its beginning or on from an operand, leaves the first token behind it in the
    slot, and every other reader that succeeds within a text leaves the slot empty. -/
theorem stopsAt (depth : Nat) : StopsAt depth where
  expect := expect_stops
  primary := primary_stops depth
  unary s := ((readsAt depth).unary s).endsWithin
  conditional := conditional_stops depth
  binary left min s := by
    refine ((readsAt depth).binary left min s .input []).mono ?_ fun _ _ hf => hf.givesUp
    rintro e s' ⟨ks, t, hs, hks, hg, ht⟩
    exact ⟨ks, t, hs.holds, hks, hg, ht⟩
  expression s := by
    refine ((readsAt depth).expression s .input []).mono ?_ fun _ _ hf => hf.givesUp
    rintro e s' ⟨ts, t, hs, hts, ht⟩
    exact ⟨ts, t, hs.holds, hts, ht⟩
  complete s := by
    refine (complete_reads depth s).mono ?_ fun _ _ hf => hf.givesUp
    rintro e s' ⟨ts, t, hs, ht, hts⟩
    exact ⟨ts, t, hs.holds, hts, ht⟩

end Parser
end ExprLang

import ExprLang.Token.Lexer

/-! What reading a token can do.

    A token that was read is the end of the input, a symbol, a number or a word, and each of these
    is told by the characters under the cursor (`lexeme_cases`). All that later theorems need to
    know about tokens that were read follows from this one list of cases. -/

namespace ExprLang.Lexer

/-- The four ways to read a token. -/
theorem lexeme_cases {c c' : Cursor} {t : Token} (h : lexeme c = .ok t c') :
    (c.rest = [] ∧ t = ⟨.endOfInput, .absent, c.position⟩ ∧ c' = c) ∨
    (∃ s, Symbol.scan? c.rest = some s ∧ t = ⟨.symbol s, .text s.text, c.position⟩ ∧
      c' = c.pass s.text.length) ∨
    (∃ n, number c = .ok n c' ∧ t = ⟨.integer, .number n, c.position⟩) ∨
    (∃ d ds w, c.rest = d :: ds ∧ Text.isIdentStart d = true ∧ word c = .ok w c' ∧
      t = ⟨.ofWord w, .text w, c.position⟩) := by
  unfold lexeme at h
  split at h
  · rename_i hr
    injection h with ht hc
    exact .inl ⟨hr, ht.symm, hc.symm⟩
  · rename_i d ds hr
    split at h
    · rename_i s hs
      injection h with ht hc
      exact .inr (.inl ⟨s, hs, ht.symm, hc.symm⟩)
    · split at h
      · obtain ⟨n, hn, ht⟩ := map_ok h
        exact .inr (.inr (.inl ⟨n, hn, ht⟩))
      · split at h
        · rename_i hd
          obtain ⟨w, hw, ht⟩ := map_ok h
          exact .inr (.inr (.inr ⟨d, ds, w, hr, hd, hw, ht⟩))
        · cases h

theorem ofWord_ne_endOfInput (w : String) : TokenKind.ofWord w ≠ .endOfInput := by
  unfold TokenKind.ofWord
  split <;> simp

/-- The end of the input is read where nothing is left, and the cursor stays there. -/
theorem next_endOfInput {c c' : Cursor} {t : Token} (h : next c = .ok t c')
    (ht : t.kind = .endOfInput) : c' = c.skipTrivia ∧ c'.rest = [] := by
  rcases lexeme_cases h with ⟨hr, _, rfl⟩ | ⟨s, _, rfl, _⟩ | ⟨n, _, rfl⟩ | ⟨d, ds, w, _, _, _, rfl⟩
  · exact ⟨rfl, hr⟩
  · cases ht
  · cases ht
  · exact absurd ht (ofWord_ne_endOfInput w)

/-- Reading a token never leaves more to read. -/
theorem length_next_le {c c' : Cursor} {t : Token} (h : next c = .ok t c') :
    c'.rest.length ≤ c.rest.length := by
  by_cases ht : t.kind = .endOfInput
  · rw [(next_endOfInput h ht).2]
    exact Nat.zero_le _
  · exact Nat.le_of_lt (length_next_lt h ht)

end ExprLang.Lexer

namespace ExprLang

theorem tokensOf_eq_ok_iff {s : String} {ts : List Token} : tokensOf s = .ok ts ↔
    (Lexer.run (Cursor.ofText s)).tokens = ts ∧ (Lexer.run (Cursor.ofText s)).error? = none := by
  unfold tokensOf
  dsimp only
  split
  · rename_i h
    rw [Except.ok.injEq, and_iff_left h]
  · rename_i e h
    rw [h]
    constructor
    · exact fun h => nomatch h
    · exact fun h => nomatch h.2

theorem tokensOf_eq_error_iff {s : String} {e : LexError} :
    tokensOf s = .error e ↔ (Lexer.run (Cursor.ofText s)).error? = some e := by
  unfold tokensOf
  dsimp only
  split
  · rename_i h
    rw [h]
    constructor <;> exact fun h => nomatch h
  · rename_i e' h
    rw [h, Except.error.injEq, Option.some.injEq]

end ExprLang

import ExprLang.Proofs.Token.Lookahead
import ExprLang.Proofs.Token.Reading

/-! How tokens are spelled.

    A symbol, a word or a number is read back from its spelling, provided that what stands behind it
    does not run on with it (`reads_symbol`, `reads_word`, `reads_number`). `Reads` puts such
    readings one behind the other. It holds of characters with others behind them, wherever they
    stand in a text, so that what is written from pieces can be read piece by piece. -/

namespace ExprLang

namespace Text

/-- The digits of a number are worth the number. -/
theorem decimalValue_toDigits (n : Nat) : decimalValue (Nat.toDigits 10 n) = n :=
  Nat.ofDigitChars_ten_toDigits

theorem isDigits_toDigits (n : Nat) : IsDigits (Nat.toDigits 10 n) :=
  ⟨Nat.toDigits_ne_nil, fun _ hd => Nat.isDigit_of_mem_toDigits (by decide) (by decide) hd⟩

end Text

/-- A number that is not below zero is written in digits alone. -/
theorem Value.toList_plain_natCast (n : Nat) : (number n).plain.toList = Nat.toDigits 10 n :=
  Nat.toList_repr

namespace Lexer

open Text Lexical

/-- The characters `cs`, with `rest` behind them, are read as tokens of which `P` holds. -/
def Reads (cs rest : List Char) (P : List Token → Prop) : Prop :=
  ∀ c : Cursor, c.rest = cs ++ rest → ∃ ts c', c'.rest = rest ∧
    TokenStream.Takes ⟨c, none⟩ ts ⟨c', none⟩ ∧ P ts

/-- A single token of this kind with this value. -/
def Single (kind : TokenKind) (value : Value) (ts : List Token) : Prop :=
  ∃ p, ts = [⟨kind, value, p⟩]

theorem Single.ne_nil {kind : TokenKind} {value : Value} : ¬ Single kind value [] :=
  fun ⟨_, h⟩ => nomatch h

variable {cs ds rest : List Char} {P Q : List Token → Prop}

theorem Reads.mono (h : Reads cs rest P) (hPQ : ∀ ts, P ts → Q ts) : Reads cs rest Q := by
  intro c hc
  obtain ⟨ts, c', hrest, htakes, hts⟩ := h c hc
  exact ⟨ts, c', hrest, htakes, hPQ ts hts⟩

/-- Two pieces are read one behind the other. -/
theorem Reads.append (h : Reads cs (ds ++ rest) P)
    (h' : ∀ ts, P ts → Reads ds rest fun us => Q (ts ++ us)) : Reads (cs ++ ds) rest Q := by
  intro c hc
  obtain ⟨ts, c₁, hc₁, hts, hP⟩ := h c (by rw [hc, List.append_assoc])
  obtain ⟨us, c', hc', hus, hQ⟩ := h' ts hP c₁ hc₁
  exact ⟨ts ++ us, c', hc', hts.append hus, hQ⟩

/-- A blank in front of a piece that has tokens does not matter. -/
theorem Reads.blank {d : Char} (hd : Text.isBlank d = true) (h : Reads cs rest P)
    (hP : ¬ P []) : Reads (d :: cs) rest P := by
  intro c hc
  have hpass : (c.pass 1).rest = cs ++ rest := by rw [Cursor.rest_pass, hc]; rfl
  obtain ⟨ts, c', hc', hts, hPts⟩ := h (c.pass 1) hpass
  refine ⟨ts, c', hc', ?_, hPts⟩
  cases hts with
  | nil => exact absurd hPts hP
  | cons hn ht hts =>
    refine .cons ?_ ht hts
    rw [TokenStream.next_empty, next_blank hc hd, ← TokenStream.next_empty]
    exact hn

/-- A lexeme is read as its token if it is the longest and neither a blank nor a comment begins
    with it. -/
theorem reads_of_munch {kind : TokenKind} {value : Value} (hsig : Significant (cs ++ rest))
    (h : Munch cs rest kind value) (hlong : IsDigits cs → cs.length ≤ maxDigits) :
    Reads cs rest (Single kind value) := by
  intro c hc
  have hnext : next c = .ok ⟨kind, value, c.position⟩ (c.pass cs.length) := by
    rw [next_of_significant (hc ▸ hsig), lexeme_of_munch hc h hlong]
  refine ⟨[⟨kind, value, c.position⟩], c.pass cs.length, ?_, .single ?_ h.lexeme.ne_endOfInput,
    c.position, rfl⟩
  · exact rest_pass_length hc
  · rw [TokenStream.next_empty, hnext]

theorem reads_symbol (s : Symbol) (hequal : rest.head? ≠ some '=')
    (hslash : rest.head? ≠ some '/') :
    Reads s.text.toList rest (Single (.symbol s) (.text s.text)) := by
  obtain ⟨more, heq, hmunch⟩ := munch_symbol (s.scan?_text hequal)
  obtain rfl := List.append_cancel_left heq
  exact reads_of_munch (significant_symbol s hslash) hmunch fun hdigits =>
    absurd hdigits s.not_isDigits_text

theorem reads_word {w : String} (hw : IsWord w)
    (hrest : ∀ d, rest.head? = some d → isIdentChar d = false) :
    Reads w.toList rest (Single (.ofWord w) (.text w)) :=
  reads_of_munch (significant_of_isWord hw rest) (munch_word hw hrest) fun hdigits =>
    absurd hdigits (not_isDigits_of_isWord hw)

theorem reads_keyword (k : Keyword)
    (hrest : ∀ d, rest.head? = some d → isIdentChar d = false) :
    Reads k.text.toList rest (Single (.keyword k) (.text k.text)) :=
  k.ofWord_text ▸ reads_word k.isWord_text hrest

theorem reads_number {n : Nat} (hn : (n : Int) ≤ Word64.maxValue)
    (hrest : ∀ d, rest.head? = some d → isIdentChar d = false) :
    Reads (Nat.toDigits 10 n) rest (Single .integer (.number n)) := by
  have hds := isDigits_toDigits n
  have hmunch := munch_number hds hrest (by rw [decimalValue_toDigits]; exact hn)
  rw [decimalValue_toDigits] at hmunch
  refine reads_of_munch (significant_of_isDigits hds rest) hmunch fun _ => ?_
  have hlength : (Nat.toDigits 10 n).length ≤ 19 := by
    rw [Nat.length_toDigits_le_iff (by decide) (by decide)]
    unfold Word64.maxValue at hn
    omega
  unfold maxDigits
  omega

/-- The tokens of a text that is read to its end are those that were read and the end of the
    input. -/
theorem Reads.tokensOf {s : String} (h : Reads s.toList [] P) :
    ∃ ts last, tokensOf s = .ok (ts ++ [last]) ∧ last.kind = .endOfInput ∧ P ts := by
  obtain ⟨ts, c', hc', hts, hP⟩ := h (Cursor.ofText s) (List.append_nil _).symm
  obtain ⟨c₁, hc₁, htok, herr⟩ := hts.run rfl
  injection hc₁ with hc₁ _
  subst hc₁
  have hrun : run c' = ⟨[⟨.endOfInput, .absent, c'.position⟩], none, c'⟩ := by
    rw [run, next_of_rest_eq_nil hc']
    rfl
  rw [hrun] at htok herr
  refine ⟨ts, ⟨.endOfInput, .absent, c'.position⟩, ?_, rfl, hP⟩
  unfold ExprLang.tokensOf
  simp only [herr, htok]

end Lexer
end ExprLang

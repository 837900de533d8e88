import ExprLang.Proofs.Expr.RoundTrip
import ExprLang.Proofs.Json.Writing

/-! Long runs of operators in front of an operand.

    The operators in front of an operand are taken in a loop (`prefixes_of_takes`), so a small budget
    of depth is enough for any number of them. A number can be read behind as many minus signs as
    anyone likes, and its tree is as high as their number says (`parseWithin_minuses`). -/

namespace ExprLang

open TokenStream

namespace Parser

/-- The loop takes the operators that stand in a stream, and stops with a look at what is behind. -/
theorem prefixes_of_takes {s s' u : TokenStream} {ts : List Token} {t : Token}
    (h : Takes s ts s') (hts : ∀ o ∈ ts, isPrefixOp o = true)
    (hpeek : TokenStream.peek s' = .ok t u) (ht : isPrefixOp t = false) :
    ∀ (n : Nat) (taken : List Token), ts.length < n →
      prefixes n taken s = .ok (ts.reverse ++ taken) u := by
  induction h with
  | nil s =>
    rintro (_ | n) taken hn
    · exact absurd hn (Nat.not_lt_zero _)
    · simp [prefixes, bind, EStateM.bind, peek, EStateM.adaptExcept, hpeek, ht, pure, EStateM.pure]
  | @cons s s₁ s' o ts hnext hne htakes ih =>
    obtain ⟨ho, hts⟩ := List.forall_mem_cons.mp hts
    rintro (_ | n) taken hn
    · exact absurd hn (Nat.not_lt_zero _)
    · have hlook := (peek_of_next hnext).2
      have htake := next_eq_of_peek hlook
      rw [hnext] at htake
      have hrest := ih hts hpeek n (o :: taken) (Nat.lt_of_succ_lt_succ hn)
      simp [prefixes, bind, EStateM.bind, peek, next, EStateM.adaptExcept, hlook, ho, htake, hrest]

/-- A number with nothing behind it is read under the operators in front of it. -/
theorem complete_of_takes {s s₁ s₂ s' : TokenStream} {ts : List Token} {t e : Token}
    (h : Takes s ts s₁) (hts : ∀ o ∈ ts, isPrefixOp o = true)
    (hnumber : TokenStream.next s₁ = .ok t s₂) (ht : t.kind = .integer)
    (hend : TokenStream.peek s₂ = .ok e s') (he : e.kind = .endOfInput) (depth : Nat) : complete (depth + 4) s =
      .ok (applyPrefixes ts.reverse (.integer t.position t.value)) s' := by
  obtain ⟨hempty, hpeek⟩ := peek_of_next hnumber
  have htake := next_eq_of_peek hpeek
  rw [hnumber] at htake
  have hoperator : isPrefixOp t = false := by simp [isPrefixOp, ht]
  have hfuel : ts.length < s.size + 1 := by
    have := h.size_le
    omega
  have hprefixes := prefixes_of_takes h hts hpeek hoperator (s.size + 1) [] hfuel
  rw [List.append_nil] at hprefixes
  have hlook := peek_peek hpeek
  have hunary : unary (depth + 2) s =
      .ok (applyPrefixes ts.reverse (.integer t.position t.value)) s₂ := by
    simp [unary, primary, bind, EStateM.bind, fuel, hprefixes, peek, next, EStateM.adaptExcept,
      hlook, htake, ht, pure, EStateM.pure]
  -- The end of the input is taken to see that no operator follows, and then put back.
  obtain ⟨hslot, hnext⟩ := next_of_peek hend
  have hbinary (left : Expr) : binary (depth + 2) left 1 s₂ = .ok left s' := by
    simp [binary, climb, bind, EStateM.bind, fuel, next, EStateM.adaptExcept, hnext, he,
      TokenKind.precedence, pushBack, TokenStream.pushBack, pure, EStateM.pure, ← hslot]
  have hagain := peek_peek hend
  simp [complete, expression, bind, EStateM.bind, hunary, hbinary, peek, EStateM.adaptExcept,
    hagain, he, pure, EStateM.pure]

end Parser

/-! ### Numbers under minus signs -/

section Minuses

open Lexer Text Lexical

/-- Every operator in front of an operand makes its tree higher by one. -/
theorem Parser.height_applyPrefixes (ops : List Token) (e : Expr) :
    (applyPrefixes ops e).height = ops.length + e.height := by
  induction ops generalizing e with
  | nil => simp [applyPrefixes]
  | cons t ops ih =>
    have hfold : applyPrefixes (t :: ops) e = applyPrefixes ops (.unary t.position t.value e) := rfl
    rw [hfold, ih, Expr.height, List.length_cons]
    omega

/-- A run of minus signs is read as that many operators. -/
theorem reads_minuses {rest : List Char} (hrest : Begins rest) (k : Nat) :
    Reads (List.replicate k '-') rest fun ts =>
      ts.length = k ∧ ∀ t ∈ ts, Parser.isPrefixOp t = true := by
  induction k with
  | zero =>
    intro c hc
    exact ⟨[], c, hc, .nil _, rfl, fun t ht => absurd ht List.not_mem_nil⟩
  | succ k ih =>
    have hbehind : Begins (List.replicate k '-' ++ rest) := by
      cases k with
      | zero => exact hrest
      | succ k => exact ⟨'-', _, rfl, by decide, by decide⟩
    have hsign := reads_symbol .minus hbehind.head_ne_equal hbehind.head_ne_slash
    rw [List.replicate_succ, ← List.singleton_append]
    refine hsign.append ?_
    rintro ts ⟨p, rfl⟩
    refine ih.mono ?_
    rintro us ⟨rfl, hus⟩
    exact ⟨rfl, List.forall_mem_cons.mpr ⟨rfl, hus⟩⟩

/-- A number behind any number of minus signs is read in little depth, and its tree is as high as
    there are signs, and one higher. -/
theorem parseWithin_minuses {n : Nat} (hn : (n : Int) ≤ Word64.maxValue) (depth k : Nat) :
    ∃ e, parseWithin (depth + 4) (String.ofList (List.replicate k '-' ++ Nat.toDigits 10 n)) =
      .ok e ∧ e.height = k + 1 := by
  obtain ⟨ts, c, hc, hsigns, rfl, hts⟩ := reads_minuses (begins_toDigits n) k
    (Cursor.ofText (String.ofList (List.replicate k '-' ++ Nat.toDigits 10 n)))
    (String.toList_ofList ..)
  obtain ⟨us, c', hc', hnumber, p, rfl⟩ := reads_number hn breaks_nil c
    (by rw [hc, List.append_nil])
  cases hnumber with
  | cons hnext _ hrest =>
    cases hrest
    let last : Token := ⟨.endOfInput, .absent, c'.position⟩
    have hend : TokenStream.peek ⟨c', none⟩ = .ok last ⟨c', some last⟩ := by
      simp only [TokenStream.peek, next_of_rest_eq_nil hc', last]
    have hcomplete := Parser.complete_of_takes hsigns hts hnext rfl hend rfl depth
    refine ⟨Parser.applyPrefixes ts.reverse (.integer p (.number n)), ?_, ?_⟩
    · unfold parseWithin TokenStream.ofText
      rw [hcomplete]
    · rw [Parser.height_applyPrefixes, List.length_reverse, Expr.height]

end Minuses
end ExprLang

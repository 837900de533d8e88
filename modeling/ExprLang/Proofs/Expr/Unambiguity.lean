import ExprLang.Proofs.Expr.Grouping

/-! The grammar is unambiguous.

    An operand shows where it ends: of two operands that begin the same list of tokens neither goes
    on behind the other (`operandsEndAlike`). A chain ends in front of the first token that is no
    operator, so two readings of the same tokens agree on the first operand, on every link and,
    since a chain has one tree, on the tree (`Derives.unique`). -/

namespace ExprLang.Grammar

/-- Of two operands that begin the same tokens, one of them with less than `n` tokens, neither goes
    on behind the other, and both have one tree. -/
def OperandsEndAlike (n : Nat) : Prop :=
  ∀ ⦃us us' rest rest' : List Token⦄ ⦃e e' : Expr⦄, us.length < n → Derives .operand us e →
    Derives .operand us' e' → us ++ rest = us' ++ rest' → us = us' ∧ e = e'

/-- The tokens that follow do not go on with an operator. -/
def NoOperator (rest : List Token) : Prop := ∀ t ∈ rest.head?, t.kind.precedence = 0

theorem noOperator_cons {t : Token} {rest : List Token} (h : t.kind.precedence = 0) :
    NoOperator (t :: rest) := by
  intro u hu
  obtain rfl : t = u := by simpa using hu
  exact h

/-- Two chains that begin the same tokens and stop in front of no operator are one. -/
theorem chain_unique {n : Nat} (hn : OperandsEndAlike n) :
    ∀ {ks ks' : List Link} {rest rest' : List Token}, (chainTokens ks).length ≤ n →
      (∀ k ∈ ks, k.Proper) → (∀ k ∈ ks', k.Proper) → NoOperator rest → NoOperator rest' →
      chainTokens ks ++ rest = chainTokens ks' ++ rest' → ks = ks' ∧ rest = rest'
  | [], [], _, _, _, _, _, _, _, h => ⟨rfl, h⟩
  | [], k' :: ks', rest, rest', _, _, hp', hr, _, h => by
    rw [chainTokens_nil, List.nil_append, chainTokens_cons, List.cons_append] at h
    exact absurd (hr k'.operator (by rw [h]; rfl)) (hp' k' (by simp)).1
  | k :: ks, [], rest, rest', _, hp, _, _, hr', h => by
    rw [chainTokens_nil, List.nil_append, chainTokens_cons, List.cons_append] at h
    exact absurd (hr' k.operator (by rw [← h]; rfl)) (hp k (by simp)).1
  | k :: ks, k' :: ks', rest, rest', hlen, hp, hp', hr, hr', h => by
    simp only [chainTokens_cons, List.length_cons, List.length_append] at hlen
    simp only [chainTokens_cons, List.cons_append, List.cons.injEq, List.append_assoc] at h
    obtain ⟨hop, h⟩ := h
    obtain ⟨hs, he⟩ := hn (by omega) (hp k (by simp)).2 (hp' k' (by simp)).2 h
    rw [hs] at h
    obtain ⟨rfl, rfl⟩ := chain_unique hn (by omega) (fun x hx => hp x (by simp [hx]))
      (fun x hx => hp' x (by simp [hx])) hr hr' (List.append_cancel_left h)
    obtain ⟨op, sp, x⟩ := k
    obtain ⟨op', sp', x'⟩ := k'
    simp only at hop hs he
    exact ⟨by rw [hop, hs, he], rfl⟩

/-- Two sentences that begin the same tokens and stop in front of no operator are one. -/
theorem sentence_unique {n : Nat} (hn : OperandsEndAlike n) {ts ts' rest rest' : List Token}
    {e e' : Expr} (hlen : ts.length < n) (hs : Sentence ts e) (hs' : Sentence ts' e')
    (hr : NoOperator rest) (hr' : NoOperator rest') (h : ts ++ rest = ts' ++ rest') :
    ts = ts' ∧ e = e' ∧ rest = rest' := by
  obtain ⟨us, left, ks, rfl, hl, hks, hg⟩ := hs.exists_chain
  obtain ⟨us', left', ks', rfl, hl', hks', hg'⟩ := hs'.exists_chain
  rw [List.length_append] at hlen
  rw [List.append_assoc, List.append_assoc] at h
  obtain ⟨rfl, rfl⟩ := hn (by omega) hl hl' h
  obtain ⟨rfl, rfl⟩ := chain_unique hn (by omega) (fun k hk => (hks k hk).1)
    (fun k hk => (hks' k hk).1) hr hr' (List.append_cancel_left h)
  exact ⟨rfl, hg.unique hg', rfl⟩

/-- No primary begins with a token that stands in front of an operand. -/
theorem not_leading_of_primary {t : Token} {us : List Token} {e : Expr}
    (h : Derives .primary (t :: us) e) : ¬ Leading t := by
  intro ht
  rcases h.primary_cases with ⟨t', hts, hk, _⟩ | ⟨t', hts, hk, _⟩ | ⟨t', vs, r, hts, hk, _⟩ |
    ⟨t', cs, th, vs, el, es, en, c, x, y, hts, hk, _⟩ <;>
  · injection hts with h₁ _
    subst h₁
    rcases ht with ht | ht <;> exact absurd (ht.symm.trans hk) (by decide)

/-- Operands of any length end alike. The induction is on the bound, since what stands between
    parentheses is shorter than the operand but no part of its derivation as a chain. -/
theorem operandsEndAlike : ∀ n, OperandsEndAlike n := by
  intro n
  induction n with
  | zero => exact fun _ _ _ _ _ _ h => absurd h (Nat.not_lt_zero _)
  | succ n ih =>
    intro us us' rest rest' e e' hlen h h' heq
    rcases h.operand_cases with hp | ⟨t, vs, x, rfl, ht, hx, rfl⟩ <;>
    rcases h'.operand_cases with hp' | ⟨t', vs', x', rfl, ht', hx', rfl⟩
    · rcases hp.primary_cases with ⟨t, rfl, hk, rfl⟩ | ⟨t, rfl, hk, rfl⟩ |
        ⟨t, vs, r, rfl, hk, hv, hr⟩ |
        ⟨t, cs, th, vs, el, es, en, c, x, y, rfl, hk, hc, hth, hx, hel, hy, hen, rfl⟩ <;>
      rcases hp'.primary_cases with ⟨t', rfl, hk', rfl⟩ | ⟨t', rfl, hk', rfl⟩ |
        ⟨t', vs', r', rfl, hk', hv', hr'⟩ |
        ⟨t', cs', th', vs', el', es', en', c', x', y', rfl, hk', hc', hth', hx', hel', hy', hen',
          rfl⟩ <;>
      simp only [List.cons_append, List.append_assoc, List.nil_append, List.cons.injEq] at heq <;>
      obtain ⟨rfl, heq⟩ := heq <;>
      -- primaries of two different forms begin with tokens of two different kinds
      try exact absurd (hk.symm.trans hk') (by decide)
      · exact ⟨rfl, rfl⟩
      · exact ⟨rfl, rfl⟩
      · simp only [List.length_cons, List.length_append, List.length_nil] at hlen
        obtain ⟨rfl, rfl, hrest⟩ := sentence_unique ih (by omega) hv hv'
          (noOperator_cons (by rw [hr]; rfl)) (noOperator_cons (by rw [hr']; rfl)) heq
        injection hrest with hr₁ _
        exact ⟨by rw [hr₁], rfl⟩
      · simp only [List.length_cons, List.length_append, List.length_nil] at hlen
        obtain ⟨rfl, rfl, heq⟩ := sentence_unique ih (by omega) hc hc'
          (noOperator_cons (by rw [hth]; rfl)) (noOperator_cons (by rw [hth']; rfl)) heq
        injection heq with hth₁ heq
        obtain ⟨rfl, rfl, heq⟩ := sentence_unique ih (by omega) hx hx'
          (noOperator_cons (by rw [hel]; rfl)) (noOperator_cons (by rw [hel']; rfl)) heq
        injection heq with hel₁ heq
        obtain ⟨rfl, rfl, heq⟩ := sentence_unique ih (by omega) hy hy'
          (noOperator_cons (by rw [hen]; rfl)) (noOperator_cons (by rw [hen']; rfl)) heq
        injection heq with hen₁ _
        exact ⟨by rw [hth₁, hel₁, hen₁], rfl⟩
    · cases us with
      | nil => exact absurd rfl h.ne_nil
      | cons u us =>
        injection heq with h₁ _
        exact absurd (h₁ ▸ ht') (not_leading_of_primary hp)
    · cases us' with
      | nil => exact absurd rfl h'.ne_nil
      | cons u us' =>
        injection heq with h₁ _
        exact absurd (h₁ ▸ ht) (not_leading_of_primary hp')
    · rw [List.cons_append, List.cons_append] at heq
      injection heq with h₁ heq
      rw [List.length_cons] at hlen
      obtain ⟨rfl, rfl⟩ := ih (by omega) hx hx' heq
      exact ⟨by rw [h₁], by rw [h₁]⟩

/-- A category derives at most one tree from some tokens. -/
theorem Derives.unique {c : Category} {ts : List Token} {e e' : Expr} (h : Derives c ts e)
    (h' : Derives c ts e') : e = e' := by
  have hc : Category.disjunction.rank ≤ c.rank := by cases c <;> decide
  have hnil : NoOperator [] := fun t ht => absurd ht (by simp)
  exact (sentence_unique (operandsEndAlike _) (Nat.lt_succ_self _) (h.loosen hc) (h'.loosen hc)
    hnil hnil rfl).2.1

end ExprLang.Grammar

import ExprLang.Proofs.Token.Lexeme
import ExprLang.Token.Stream

/-! What a stream has still to give.

    The slot of a stream must not matter to what is read from it: a token that was looked at comes
    out next all the same. `Takes` therefore speaks of the tokens that come out one by one, and
    `Sees` of what is found behind them, a token or a failure, without saying whether the slot was
    full before. For the stream of a text both agree with the run of the lexer over that text
    (`Sees.run_of_ok`, `Sees.run_of_error`). -/

namespace ExprLang.TokenStream

/-! ### Looking and taking -/

theorem next_held (c : Cursor) (t : Token) : next ⟨c, some t⟩ = .ok t ⟨c, none⟩ := rfl

theorem peek_held (c : Cursor) (t : Token) : peek ⟨c, some t⟩ = .ok t ⟨c, some t⟩ := rfl

/-- A token that is taken leaves the slot empty, and looking would have put it there. -/
theorem peek_of_next {s s' : TokenStream} {t : Token} (h : next s = .ok t s') :
    s'.pending = none ∧ peek s = .ok t ⟨s'.cursor, some t⟩ := by
  unfold next at h
  split at h
  · rename_i u hp
    injection h with h₁ h₂
    subst h₁ h₂
    refine ⟨rfl, ?_⟩
    obtain ⟨c, p⟩ := s
    obtain rfl : p = some u := hp
    rfl
  · rename_i hp
    split at h
    · rename_i u c hc
      injection h with h₁ h₂
      subst h₁ h₂
      exact ⟨rfl, by simp only [peek, hp, hc]⟩
    · cases h

/-- A token that is looked at lies in the slot, and it is the one that comes out next. -/
theorem next_of_peek {s s' : TokenStream} {t : Token} (h : peek s = .ok t s') :
    s' = ⟨s'.cursor, some t⟩ ∧ next s = .ok t ⟨s'.cursor, none⟩ := by
  unfold peek at h
  split at h
  · rename_i u hp
    injection h with h₁ h₂
    subst h₁ h₂
    obtain ⟨c, p⟩ := s
    obtain rfl : p = some u := hp
    exact ⟨rfl, rfl⟩
  · rename_i hp
    split at h
    · rename_i u c hc
      injection h with h₁ h₂
      subst h₁ h₂
      exact ⟨rfl, by simp only [next, hp, hc]⟩
    · cases h

/-- Looking at what cannot be read fails as taking it does. -/
theorem peek_eq_error_iff {s s' : TokenStream} {e : LexError} :
    peek s = .error e s' ↔ next s = .error e s' := by
  unfold peek next
  split
  · constructor <;> intro h <;> cases h
  · split
    · constructor <;> intro h <;> cases h
    · exact Iff.rfl

/-- There is one next token, and one stream behind it. -/
theorem next_unique {s s₁ s₂ : TokenStream} {t u : Token} (h : next s = .ok t s₁)
    (h' : next s = .ok u s₂) : t = u ∧ s₁ = s₂ := by
  rw [h] at h'
  injection h' with ht hs
  exact ⟨ht, hs⟩

theorem peek_unique {s s₁ s₂ : TokenStream} {t u : Token} (h : peek s = .ok t s₁)
    (h' : peek s = .ok u s₂) : t = u ∧ s₁ = s₂ := by
  rw [h] at h'
  injection h' with ht hs
  exact ⟨ht, hs⟩

/-- Looking does not change what comes out next. -/
theorem next_eq_of_peek {s s' : TokenStream} {t : Token} (h : peek s = .ok t s') :
    next s' = next s := by
  obtain ⟨hs', hn⟩ := next_of_peek h
  rw [hn, hs', next_held]

/-- Looking twice is looking once. -/
theorem peek_peek {s s' : TokenStream} {t : Token} (h : peek s = .ok t s') :
    peek s' = .ok t s' := by
  obtain ⟨hs', _⟩ := next_of_peek h
  rw [hs', peek_held]

/-- A token that was taken can be put back, which comes to the same as looking at it. -/
theorem pushBack_of_next {s s' : TokenStream} {t : Token} (h : next s = .ok t s') :
    ∃ s'', pushBack t s' = .ok () s'' ∧ peek s = .ok t s'' := by
  obtain ⟨hp, hk⟩ := peek_of_next h
  exact ⟨⟨s'.cursor, some t⟩, by simp only [pushBack, hp], hk⟩

/-- Looking does not make a stream larger. -/
theorem size_peek_le {s s' : TokenStream} {t : Token} (h : peek s = .ok t s') :
    s'.size ≤ s.size := by
  unfold peek at h
  split at h
  · injection h with _ h₂
    exact h₂ ▸ Nat.le_refl _
  · rename_i hp
    split at h
    · rename_i u c hc
      injection h with h₁ h₂
      subst h₁ h₂
      by_cases hu : u.kind = .endOfInput
      · have := Lexer.length_next_le hc
        simp only [size, hp, hu, if_true]
        omega
      · have := Lexer.length_next_lt hc hu
        simp only [size, hp, hu, if_false]
        omega
    · cases h

/-! ### Taking several tokens -/

/-- Taking the tokens `ts`, none of which is the end of the input, leads from one stream to
    another. -/
inductive Takes : TokenStream → List Token → TokenStream → Prop
  | nil (s : TokenStream) : Takes s [] s
  | cons {s s₁ s' : TokenStream} {t : Token} {ts : List Token} :
    next s = .ok t s₁ → t.kind ≠ .endOfInput → Takes s₁ ts s' → Takes s (t :: ts) s'

/-- Behind the tokens `ts`, looking at the stream gives `r`. -/
def Sees (s : TokenStream) (ts : List Token) (r : EStateM.Result LexError TokenStream Token) :
    Prop :=
  ∃ s₁, Takes s ts s₁ ∧ peek s₁ = r

theorem Takes.single {s s' : TokenStream} {t : Token} (h : next s = .ok t s')
    (ht : t.kind ≠ .endOfInput) : Takes s [t] s' := .cons h ht (.nil s')

theorem Takes.append {s s₁ s' : TokenStream} {ts us : List Token} (h : Takes s ts s₁)
    (h' : Takes s₁ us s') : Takes s (ts ++ us) s' := by
  induction h with
  | nil => exact h'
  | cons hn ht _ ih => exact .cons hn ht (ih h')

/-- The end of the input is not among the tokens that were taken. -/
theorem Takes.ne_endOfInput {s s' : TokenStream} {ts : List Token} (h : Takes s ts s') :
    ∀ t ∈ ts, t.kind ≠ .endOfInput := by
  induction h with
  | nil => exact fun t ht => absurd ht List.not_mem_nil
  | cons _ ht _ ih =>
    intro u hu
    rcases List.mem_cons.mp hu with rfl | hu
    · exact ht
    · exact ih u hu

/-- Every token that is taken makes a stream smaller. -/
theorem Takes.size_le {s s' : TokenStream} {ts : List Token} (h : Takes s ts s') :
    s'.size + ts.length ≤ s.size := by
  induction h with
  | nil => exact Nat.le_refl _
  | cons hn ht _ ih =>
    have := size_next_lt hn ht
    simp only [List.length_cons]
    omega

theorem Takes.sees {s s₁ : TokenStream} {ts us : List Token}
    {r : EStateM.Result LexError TokenStream Token} (h : Takes s ts s₁) (h' : Sees s₁ us r) :
    Sees s (ts ++ us) r := by
  obtain ⟨s₂, ht, hr⟩ := h'
  exact ⟨s₂, h.append ht, hr⟩

/-- A token that is seen can be taken. -/
theorem Sees.takes {s s₁ s' : TokenStream} {ts : List Token} {t : Token}
    (h : Sees s ts (.ok t s₁)) (hn : next s₁ = .ok t s') (ht : t.kind ≠ .endOfInput) :
    Takes s (ts ++ [t]) s' := by
  obtain ⟨s₂, hts, hp⟩ := h
  exact hts.append (.single (next_eq_of_peek hp ▸ hn) ht)

/-- Whether a stream was looked at before makes no difference to what is seen in it. -/
theorem sees_of_peek {s s' : TokenStream} {t : Token} (h : peek s = .ok t s') {ts : List Token}
    {r : EStateM.Result LexError TokenStream Token} (hr : Sees s' ts r) : Sees s ts r := by
  obtain ⟨s₁, hts, hp⟩ := hr
  cases hts with
  | nil => exact ⟨s, .nil s, h.trans ((peek_peek h).symm.trans hp)⟩
  | cons hn ht hts => exact ⟨s₁, .cons (next_eq_of_peek h ▸ hn) ht hts, hp⟩

/-- What is seen in a stream is seen after a look at it, too. -/
theorem Sees.of_peek {s s' : TokenStream} {t : Token} {ts : List Token}
    {r : EStateM.Result LexError TokenStream Token} (hr : Sees s ts r) (h : peek s = .ok t s') :
    Sees s' ts r := by
  obtain ⟨s₁, hts, hp⟩ := hr
  cases hts with
  | nil => exact ⟨s', .nil s', (peek_peek h).trans (h.symm.trans hp)⟩
  | cons hn ht hts => exact ⟨s₁, .cons ((next_eq_of_peek h).trans hn) ht hts, hp⟩

theorem Sees.trans {s s₁ : TokenStream} {ts us : List Token} {t : Token}
    {r : EStateM.Result LexError TokenStream Token} (h : Sees s ts (.ok t s₁))
    (h' : Sees s₁ us r) : Sees s (ts ++ us) r := by
  obtain ⟨s₂, hts, hp⟩ := h
  exact hts.sees (sees_of_peek hp h')

/-- Tokens that are taken behind a token that was looked at begin with that token. -/
theorem Sees.takes_append {s s₁ s' : TokenStream} {ts us : List Token} {t : Token}
    (h : Sees s ts (.ok t s₁)) (h' : Takes s₁ us s') (hus : us ≠ []) : Takes s (ts ++ us) s' := by
  obtain ⟨s₂, hts, hp⟩ := h
  cases h' with
  | nil => exact absurd rfl hus
  | cons hn ht h' => exact hts.append (.cons (next_eq_of_peek hp ▸ hn) ht h')

/-- What was seen lies in the slot, so looking there again sees it again. -/
theorem Sees.peek_eq {s s' : TokenStream} {ts : List Token} {t : Token}
    (h : Sees s ts (.ok t s')) : peek s' = .ok t s' := by
  obtain ⟨s₁, _, hp⟩ := h
  exact peek_peek hp

theorem Sees.size_le {s s' : TokenStream} {ts : List Token} {t : Token}
    (h : Sees s ts (.ok t s')) : s'.size + ts.length ≤ s.size := by
  obtain ⟨s₁, hts, hp⟩ := h
  have := hts.size_le
  have := size_peek_le hp
  omega

/-! ### The stream of a text -/

/-- A stream that holds no token takes its tokens from its cursor. -/
theorem next_empty (c : Cursor) :
    next ⟨c, none⟩ = match Lexer.next c with
      | .ok t c' => .ok t ⟨c', none⟩
      | .error e c' => .error e ⟨c', none⟩ := rfl

/-- What a cursor gives next is all that a look at it depends on. -/
theorem peek_congr {c c' : Cursor} (h : Lexer.next c = Lexer.next c') :
    peek ⟨c, none⟩ = peek ⟨c', none⟩ := by
  simp only [peek, h]

theorem next_empty_eq_ok {c : Cursor} {t : Token} {s : TokenStream}
    (h : next ⟨c, none⟩ = .ok t s) : ∃ c', Lexer.next c = .ok t c' ∧ s = ⟨c', none⟩ := by
  rw [next_empty] at h
  split at h
  · rename_i t' c' hc
    injection h with h₁ h₂
    exact ⟨c', h₁ ▸ hc, h₂.symm⟩
  · cases h

theorem next_empty_eq_error {c : Cursor} {e : LexError} {s : TokenStream}
    (h : next ⟨c, none⟩ = .error e s) : ∃ c', Lexer.next c = .error e c' ∧ s = ⟨c', none⟩ := by
  rw [next_empty] at h
  split at h
  · cases h
  · rename_i e' c' hc
    injection h with h₁ h₂
    exact ⟨c', h₁ ▸ hc, h₂.symm⟩

/-- What is taken from a cursor is what the lexer reads from it first. -/
theorem Takes.run {s s' : TokenStream} {ts : List Token} (h : Takes s ts s') {c : Cursor}
    (hs : s = ⟨c, none⟩) : ∃ c', s' = ⟨c', none⟩ ∧
      (Lexer.run c).tokens = ts ++ (Lexer.run c').tokens ∧
      (Lexer.run c).error? = (Lexer.run c').error? := by
  induction h generalizing c with
  | nil => exact ⟨c, hs, rfl, rfl⟩
  | cons hn ht _ ih =>
    subst hs
    obtain ⟨c₁, hc, hs₁⟩ := next_empty_eq_ok hn
    obtain ⟨c', hs', htok, herr⟩ := ih hs₁
    refine ⟨c', hs', ?_, ?_⟩
    · rw [Lexer.run, hc]
      simp only [ht, dite_false, htok, List.cons_append]
    · rw [Lexer.run, hc]
      simp only [ht, dite_false, herr]

/-- All that a cursor has can be taken one by one, up to the end of the input or the first failure,
    and this is the run of the lexer. -/
theorem exists_takes_run (c : Cursor) : ∃ ts s, Takes ⟨c, none⟩ ts s ∧
    ((∃ t s', next s = .ok t s' ∧ t.kind = .endOfInput ∧ (Lexer.run c).tokens = ts ++ [t] ∧
      (Lexer.run c).error? = none) ∨
    ∃ e s', next s = .error e s' ∧ (Lexer.run c).tokens = ts ∧ (Lexer.run c).error? = some e) := by
  fun_induction Lexer.run c with
  | case1 c e c₁ hn =>
    have hnext : next ⟨c, none⟩ = .error e ⟨c₁, none⟩ := by rw [next_empty, hn]
    exact ⟨[], _, .nil _, .inr ⟨e, _, hnext, rfl, rfl⟩⟩
  | case2 c t c₁ hn ht =>
    have hnext : next ⟨c, none⟩ = .ok t ⟨c₁, none⟩ := by rw [next_empty, hn]
    exact ⟨[], _, .nil _, .inl ⟨t, _, hnext, ht, rfl, rfl⟩⟩
  | case3 c t c₁ hn ht r ih =>
    have hnext : next ⟨c, none⟩ = .ok t ⟨c₁, none⟩ := by rw [next_empty, hn]
    obtain ⟨ts, s, hts, hend⟩ := ih
    refine ⟨t :: ts, s, .cons hnext ht hts, ?_⟩
    rcases hend with ⟨u, s', hu, hk, htok, herr⟩ | ⟨e, s', he, htok, herr⟩
    · exact .inl ⟨u, s', hu, hk, congrArg (t :: ·) htok, herr⟩
    · exact .inr ⟨e, s', he, congrArg (t :: ·) htok, herr⟩

/-- What is seen in a text comes, in this order, out of the lexer's run over it. -/
theorem Sees.run_of_ok {c : Cursor} {ts : List Token} {t : Token} {s' : TokenStream}
    (h : Sees ⟨c, none⟩ ts (.ok t s')) : ∃ rest, (Lexer.run c).tokens = ts ++ t :: rest ∧
      (t.kind = .endOfInput → rest = [] ∧ (Lexer.run c).error? = none) := by
  obtain ⟨s₁, hts, hp⟩ := h
  obtain ⟨c₁, rfl, htok, herr⟩ := hts.run rfl
  obtain ⟨c₂, hc, -⟩ := next_empty_eq_ok (next_of_peek hp).2
  rw [htok, herr, Lexer.run, hc]
  by_cases ht : t.kind = .endOfInput
  · exact ⟨[], by simp only [ht, dite_true], fun _ => ⟨rfl, by simp only [ht, dite_true]⟩⟩
  · exact ⟨(Lexer.run c₂).tokens, by simp only [ht, dite_false], fun h => absurd h ht⟩

/-- A failure that is seen in a text is the one that ends the lexer's run over it. -/
theorem Sees.run_of_error {c : Cursor} {ts : List Token} {e : LexError} {s' : TokenStream}
    (h : Sees ⟨c, none⟩ ts (.error e s')) :
    (Lexer.run c).tokens = ts ∧ (Lexer.run c).error? = some e := by
  obtain ⟨s₁, hts, hp⟩ := h
  obtain ⟨c₁, rfl, htok, herr⟩ := hts.run rfl
  obtain ⟨c₂, hc, -⟩ := next_empty_eq_error (peek_eq_error_iff.mp hp)
  rw [htok, herr, Lexer.run, hc]
  exact ⟨List.append_nil ts, rfl⟩

end ExprLang.TokenStream

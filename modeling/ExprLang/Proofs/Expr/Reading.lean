import ExprLang.Proofs.Expr.Viability
import ExprLang.Proofs.Token.Lookahead

/-! What the readers of expressions do.

    Every reader either takes tokens that the grammar derives and builds their tree, or it stops at
    a failure. `Fails` says what a failure is worth: the tokens in front of it all fit, a token
    that is reported does not fit behind them, and the production is what the situation there calls
    for. One lemma for each reader says so on the assumption that the readers it calls do
    (`ReadsAt`), and an induction on the budget of depth puts them together (`readsAt`). -/

namespace ExprLang.Parser

open Grammar TokenStream

/-! ### Ends of an action -/

/-- An action ends with a result that `good` allows or with a failure that `bad` allows. -/
def Ends {α : Type} (x : Parser α) (s : TokenStream) (good : α → TokenStream → Prop)
    (bad : ParseError → TokenStream → Prop) : Prop :=
  match x s with
  | .ok a s' => good a s'
  | .error e s' => bad e s'

section Ends

variable {α β : Type} {x : Parser α} {f : α → Parser β} {s : TokenStream}
  {good : β → TokenStream → Prop} {bad : ParseError → TokenStream → Prop}

theorem Ends.bind (h : Ends x s (fun a s' => Ends (f a) s' good bad) bad) :
    Ends (x >>= f) s good bad := by
  unfold Ends at h ⊢
  change match EStateM.bind x f s with | .ok a s' => good a s' | .error e s' => bad e s'
  unfold EStateM.bind
  cases hx : x s with
  | ok a s' => rw [hx] at h; exact h
  | error e s' => rw [hx] at h; exact h

theorem Ends.mono {good' : β → TokenStream → Prop} {bad' : ParseError → TokenStream → Prop}
    {y : Parser β} (h : Ends y s good' bad') (hg : ∀ b s', good' b s' → good b s')
    (hb : ∀ e s', bad' e s' → bad e s') : Ends y s good bad := by
  unfold Ends at *
  split
  · rename_i hx
    rw [hx] at h
    exact hg _ _ h
  · rename_i hx
    rw [hx] at h
    exact hb _ _ h

/-- What holds of the end of an action holds of its result. -/
theorem Ends.of_ok {y : Parser β} {b : β} {s' : TokenStream} (h : Ends y s good bad)
    (hy : y s = .ok b s') : good b s' := by
  unfold Ends at h
  rwa [hy] at h

theorem Ends.of_error {y : Parser β} {e : ParseError} {s' : TokenStream} (h : Ends y s good bad)
    (hy : y s = .error e s') : bad e s' := by
  unfold Ends at h
  rwa [hy] at h

theorem ends_pure {b : β} (h : good b s) : Ends (pure b) s good bad := h

theorem ends_throw {e : ParseError} (h : bad e s) : Ends (throw e : Parser β) s good bad := h

/-- The bound on the rounds of a loop does not touch the stream. -/
theorem ends_fuel {f : Nat → Parser β} (h : Ends (f (s.size + 1)) s good bad) :
    Ends (fuel >>= f) s good bad := h

theorem ends_next {f : Token → Parser β}
    (hf : ∀ t s', TokenStream.next s = .ok t s' → Ends (f t) s' good bad)
    (hb : ∀ e s', TokenStream.peek s = .error e s' → bad (.lexical e) s') :
    Ends (next >>= f) s good bad := by
  refine .bind ?_
  unfold Ends next EStateM.adaptExcept
  cases hn : TokenStream.next s with
  | ok t s' => exact hf t s' hn
  | error e s' => exact hb e s' (peek_eq_error_iff.mpr hn)

theorem ends_peek {f : Token → Parser β}
    (hf : ∀ t s', TokenStream.peek s = .ok t s' → Ends (f t) s' good bad)
    (hb : ∀ e s', TokenStream.peek s = .error e s' → bad (.lexical e) s') :
    Ends (peek >>= f) s good bad := by
  refine .bind ?_
  unfold Ends peek EStateM.adaptExcept
  cases hn : TokenStream.peek s with
  | ok t s' => exact hf t s' hn
  | error e s' => exact hb e s' hn

/-- Taking a token that was looked at cannot fail. -/
theorem ends_next_of_peek {f : Token → Parser β} {s₁ : TokenStream} {t : Token}
    (hp : TokenStream.peek s = .ok t s₁)
    (hf : ∀ s', TokenStream.next s = .ok t s' → Ends (f t) s' good bad) :
    Ends (next >>= f) s₁ good bad := by
  have hn := (next_of_peek hp).2
  refine ends_next (fun u s' hu => ?_) (fun e s' he => ?_)
  · rw [next_eq_of_peek hp] at hu
    obtain ⟨rfl, rfl⟩ := next_unique hn hu
    exact hf _ hn
  · rw [peek_peek hp] at he
    cases he

/-- A token that was taken can be put back. -/
theorem ends_pushBack {f : Unit → Parser β} {s₁ : TokenStream} {t : Token}
    (hn : TokenStream.next s = .ok t s₁)
    (hf : ∀ s', TokenStream.peek s = .ok t s' → Ends (f ()) s' good bad) :
    Ends (pushBack t >>= f) s₁ good bad := by
  obtain ⟨s', hb, hp⟩ := pushBack_of_next hn
  refine .bind ?_
  unfold Ends pushBack EStateM.adaptExcept
  rw [hb]
  exact hf s' hp

theorem ends_expect {f : Token → Parser β} {kind : TokenKind} {production : Production}
    (hf : ∀ t s', TokenStream.next s = .ok t s' → t.kind = kind → Ends (f t) s' good bad)
    (hu : ∀ t s', TokenStream.peek s = .ok t s' → t.kind ≠ kind → bad (.unexpected t production) s')
    (hl : ∀ e s', TokenStream.peek s = .error e s' → bad (.lexical e) s') :
    Ends (expect kind production >>= f) s good bad := by
  refine .bind (ends_peek (fun t s₁ hp => ?_) hl)
  by_cases hk : t.kind = kind
  · rw [if_pos hk]
    have hn := (next_of_peek hp).2
    have hn₁ := next_eq_of_peek hp
    rw [hn] at hn₁
    unfold Ends next EStateM.adaptExcept
    rw [hn₁]
    exact hf t _ hn hk
  · rw [if_neg hk]
    exact ends_throw (hu t s₁ hp hk)

end Ends

/-! ### Failures -/

/-- Taking the tokens `ts` leads from one stream to another and from one situation to another. -/
def Leads (σ : Situation) (s : TokenStream) (ts : List Token) (σ' : Situation)
    (s' : TokenStream) : Prop := Takes s ts s' ∧ σ.run ts = some σ'

theorem Leads.trans {σ σ₁ σ' : Situation} {s s₁ s' : TokenStream} {ts us : List Token}
    (h : Leads σ s ts σ₁ s₁) (h' : Leads σ₁ s₁ us σ' s') : Leads σ s (ts ++ us) σ' s' :=
  ⟨h.1.append h'.1, Situation.run_trans h.2 h'.2⟩

theorem Leads.single {σ σ' : Situation} {s s' : TokenStream} {t : Token}
    (hn : TokenStream.next s = .ok t s') (ht : t.kind ≠ .endOfInput) (h : σ.step t = some σ') :
    Leads σ s [t] σ' s' := ⟨.single hn ht, Situation.run_single h⟩

/-- What a failure says about the tokens of a stream that is read in a situation. -/
def Fails (σ : Situation) (s : TokenStream) : ParseError → TokenStream → Prop
  | .lexical e, s' => ∃ ts σ', Sees s ts (.error e s') ∧ σ.run ts = some σ'
  | .unexpected t production, s' => ∃ ts σ', Sees s ts (.ok t s') ∧ σ.run ts = some σ' ∧
      σ'.step t = none ∧ production = σ'.production
  | .slotOccupied _, _ => False
  | .tooDeep, _ => True

section Fails

variable {σ σ₁ : Situation} {s s₁ s' : TokenStream} {ts : List Token} {e : ParseError}

/-- A failure behind tokens that fit is a failure of the whole. -/
theorem Fails.behind_of (hs : ∀ {us r}, Sees s₁ us r → Sees s (ts ++ us) r)
    (hr : σ.run ts = some σ₁) (h : Fails σ₁ s₁ e s') : Fails σ s e s' := by
  cases e with
  | lexical l =>
    obtain ⟨us, σ', hus, hrun⟩ := h
    exact ⟨ts ++ us, σ', hs hus, Situation.run_trans hr hrun⟩
  | unexpected t production =>
    obtain ⟨us, σ', hus, hrun, h⟩ := h
    exact ⟨ts ++ us, σ', hs hus, Situation.run_trans hr hrun, h⟩
  | slotOccupied o => exact h
  | tooDeep => trivial

theorem Fails.behind (hl : Leads σ s ts σ₁ s₁) (h : Fails σ₁ s₁ e s') : Fails σ s e s' :=
  Fails.behind_of hl.1.sees hl.2 h

theorem Fails.behind_seen {t : Token} (hs : Sees s ts (.ok t s₁)) (hr : σ.run ts = some σ₁)
    (h : Fails σ₁ s₁ e s') : Fails σ s e s' := Fails.behind_of hs.trans hr h

theorem fails_lexical {l : LexError} (h : TokenStream.peek s = .error l s') :
    Fails σ s (.lexical l) s' := ⟨[], σ, ⟨s, .nil s, h⟩, rfl⟩

theorem fails_unexpected {t : Token} (h : TokenStream.peek s = .ok t s')
    (ht : σ.step t = none) : Fails σ s (.unexpected t σ.production) s' :=
  ⟨[], σ, ⟨s, .nil s, h⟩, rfl, ht, rfl⟩

end Fails

/-! ### What each reader is for -/

/-- A reader of what a category derives, which stops behind it. -/
def ReadsOperand (c : Category) (x : Parser Expr) (s : TokenStream) : Prop :=
  ∀ o outer, Ends x s (fun e s' => ∃ ts, Takes s ts s' ∧ Derives c ts e)
    (Fails ⟨true, o :: outer⟩ s)

/-- A reader of a sentence, which stops at the first token that is no operator. -/
def ReadsSentence (x : Parser Expr) (s : TokenStream) : Prop :=
  ∀ o outer, Ends x s
    (fun e s' => ∃ ts t, Sees s ts (.ok t s') ∧ Sentence ts e ∧ t.kind.precedence = 0)
    (Fails ⟨true, o :: outer⟩ s)

/-- A reader of a chain behind an operand, which stops at the first token that is no operator or
    binds less tightly than `min`. -/
def ReadsChain (left : Expr) (min : Int) (x : Parser Expr) (s : TokenStream) : Prop :=
  ∀ o outer, Ends x s
    (fun e s' => ∃ ks t, Sees s (chainTokens ks) (.ok t s') ∧
      (∀ k ∈ ks, k.Proper ∧ min ≤ (k.precedence : Int)) ∧ Grouped left ks e ∧
      (t.kind.precedence = 0 ∨ (t.kind.precedence : Int) < min))
    (Fails ⟨false, o :: outer⟩ s)

/-- The readers with a budget of `depth` do what they are for. -/
structure ReadsAt (depth : Nat) : Prop where
  expression : ∀ s, ReadsSentence (expression depth) s
  binary : ∀ left min s, ReadsChain left min (binary depth left min) s
  unary : ∀ s, ReadsOperand .operand (unary depth) s
  primary : ∀ s, (∀ t s', TokenStream.peek s = .ok t s' → ¬ Leading t) →
    ReadsOperand .primary (primary depth) s
  conditional : ∀ s, (∀ t s', TokenStream.peek s = .ok t s' → t.kind = .keyword .ifWord) →
    ReadsOperand .primary (conditional depth) s

/-! ### One lemma for each reader -/

section Readers

variable {β : Type} {σ : Situation} {o : Opening} {outer : List Opening}
  {good : β → TokenStream → Prop}

/-- A sentence and the token that ends it inside a construct. -/
theorem ends_closing {s : TokenStream} {x : Parser Expr} {f : Expr → Token → Parser β}
    (ho : o ≠ .input) {bad : ParseError → TokenStream → Prop}
    (hx : Ends x s
      (fun e s' => ∃ ts t, Sees s ts (.ok t s') ∧ Sentence ts e ∧ t.kind.precedence = 0) bad)
    (hf : ∀ ts e t s', Leads ⟨true, o :: outer⟩ s (ts ++ [t]) (o.closed outer) s' →
      Sentence ts e → t.kind = o.closing → Ends (f e t) s' good bad)
    (hu : ∀ t s', Fails ⟨true, o :: outer⟩ s (.unexpected t o.production) s' →
      bad (.unexpected t o.production) s') :
    Ends (x >>= fun e => expect o.closing o.production >>= f e) s good bad := by
  refine .bind (hx.mono ?_ fun _ _ h => h)
  rintro e s₁ ⟨ts, t, hs, hts, ht⟩
  have hrun : Situation.run ⟨true, o :: outer⟩ ts = some ⟨false, o :: outer⟩ := Derives.run hts _ _
  have hp := hs.peek_eq
  refine ends_expect (fun u s' hn hk => ?_) (fun u s' hu' hk => ?_) (fun l s' hl => ?_)
  · obtain ⟨rfl, -⟩ := next_unique (next_of_peek hp).2 hn
    have hne : t.kind ≠ .endOfInput := by
      rw [hk]
      cases o <;> simp_all [Opening.closing]
    exact hf ts e t s' ⟨hs.takes hn hne, Situation.run_trans hrun (Situation.run_single
      (Situation.step_closing hk))⟩ hts hk
  · obtain ⟨rfl, rfl⟩ := peek_unique hp hu'
    exact hu _ _ ⟨ts, _, hs, hrun, Situation.step_eq_none ht hk, rfl⟩
  · rw [hp] at hl
    cases hl

/-- A sentence and its end fail as a reader of sentences does. -/
theorem ends_sentence_closing {s : TokenStream} {x : Parser Expr} {f : Expr → Token → Parser β}
    (ho : o ≠ .input) (hx : ReadsSentence x s) {bad : ParseError → TokenStream → Prop}
    (hf : ∀ ts e t s', Leads ⟨true, o :: outer⟩ s (ts ++ [t]) (o.closed outer) s' →
      Sentence ts e → t.kind = o.closing → Ends (f e t) s' good bad)
    (hb : ∀ e s', Fails ⟨true, o :: outer⟩ s e s' → bad e s') :
    Ends (x >>= fun e => expect o.closing o.production >>= f e) s good bad :=
  ends_closing ho ((hx o outer).mono (fun _ _ h => h) hb) hf fun _ s' => hb _ s'

/-- Reading a choice: each of its three parts is a sentence that ends at its own word. -/
theorem conditional_reads {depth : Nat} (h : ReadsAt depth) (s : TokenStream)
    (hs : ∀ t s', TokenStream.peek s = .ok t s' → t.kind = .keyword .ifWord) :
    ReadsOperand .primary (conditional (depth + 1)) s := by
  intro o outer
  refine ends_expect (fun i s₁ hi hk => ?_) (fun t s' hp hk => absurd (hs t s' hp) hk)
    (fun e s' he => fails_lexical he)
  have hl : Leads ⟨true, o :: outer⟩ s [i] ⟨true, .condition :: o :: outer⟩ s₁ :=
    .single hi (by rw [hk]; decide) (Situation.step_ifWord hk)
  refine ends_sentence_closing (o := .condition) (by decide) (h.expression s₁)
    (fun cs c t s₂ hc hcs ht => ?_) (fun e s' => Fails.behind hl)
  have hl := hl.trans hc
  refine ends_sentence_closing (o := .consequent) (by decide) (h.expression s₂)
    (fun ts x f s₃ hx hts hf => ?_) (fun e s' => Fails.behind hl)
  have hl := hl.trans hx
  refine ends_sentence_closing (o := .alternative) (by decide) (h.expression s₃)
    (fun es y n s₄ hy hes hn => ?_) (fun e s' => Fails.behind hl)
  refine ends_pure ⟨_, (hl.trans hy).1, ?_⟩
  simpa using Derives.conditional hk hcs ht hts hf hes hn

/-- Reading a primary, where no token stands in front of it. -/
theorem primary_reads {depth : Nat} (h : ReadsAt depth) (s : TokenStream)
    (hs : ∀ t s', TokenStream.peek s = .ok t s' → ¬ Leading t) :
    ReadsOperand .primary (primary (depth + 1)) s := by
  intro o outer
  refine ends_peek (fun t s₁ hp => ?_) (fun e s' he => fails_lexical he)
  split
  · rename_i hk
    refine ends_next_of_peek hp fun s₂ hn => ends_pure ⟨[t], .single hn (by rw [hk]; decide), ?_⟩
    exact .integer hk
  · rename_i hk
    refine ends_next_of_peek hp fun s₂ hn => ends_pure ⟨[t], .single hn (by rw [hk]; decide), ?_⟩
    exact .identifier hk
  · rename_i hk
    refine ends_next_of_peek hp fun s₂ hn => ?_
    have hl : Leads ⟨true, o :: outer⟩ s [t] ⟨true, .parenthesis :: o :: outer⟩ s₂ :=
      .single hn (by rw [hk]; decide) (Situation.step_leftParen hk)
    refine ends_sentence_closing (o := .parenthesis) (by decide) (h.expression s₂)
      (fun ts e r s₃ he hts hr => ?_) (fun e s' => Fails.behind hl)
    exact ends_pure ⟨_, (hl.trans he).1, .parenthesized hk hts hr⟩
  · rename_i hk
    have hif : ∀ u s', TokenStream.peek s₁ = .ok u s' → u.kind = .keyword .ifWord := by
      intro u s' hu
      obtain ⟨rfl, -⟩ := peek_unique (peek_peek hp) hu
      exact hk
    have hsees : Sees s [] (.ok t s₁) := ⟨s, .nil s, hp⟩
    refine (h.conditional s₁ hif o outer).mono ?_ ?_
    · rintro e s' ⟨ts, hts, he⟩
      exact ⟨ts, hsees.takes_append hts he.ne_nil, he⟩
    · intro e s'
      exact Fails.behind_seen hsees rfl
  · -- no token that begins an operand fits here, and those in front of one are excluded
    rename_i h₁ h₂ h₃ h₄
    refine ends_throw (fails_unexpected (σ := ⟨true, o :: outer⟩) hp ?_)
    cases hstep : Situation.step ⟨true, o :: outer⟩ t with
    | none => rfl
    | some σ' =>
      rcases Situation.step_due_cases hstep with ⟨hk | hk, _⟩ | ⟨hk, _⟩ | ⟨hk, _⟩ | ⟨hk, _⟩
      · exact absurd hk h₁
      · exact absurd hk h₂
      · exact absurd hk h₃
      · exact absurd hk h₄
      · exact absurd hk (hs t s₁ hp)

/-- Tokens in front of an operand leave an operand due. -/
theorem run_leading {opened : List Opening} {ts : List Token} (h : ∀ t ∈ ts, Leading t) :
    Situation.run ⟨true, opened⟩ ts = some ⟨true, opened⟩ := by
  induction ts with
  | nil => rfl
  | cons t ts ih =>
    rw [Situation.run_cons, Situation.step_leading (h t (by simp)), Option.bind_some]
    exact ih fun u hu => h u (by simp [hu])

theorem isPrefixOp_iff {t : Token} : isPrefixOp t = true ↔ Leading t := by
  simp [isPrefixOp, Leading]

/-- The tokens in front of an operand are taken one by one, up to the first other one. -/
theorem ends_prefixes (opened : List Opening) {bad : ParseError → TokenStream → Prop} :
    ∀ (n : Nat) (taken : List Token) (s : TokenStream), s.size < n →
      (∀ l s', Fails ⟨true, opened⟩ s (.lexical l) s' → bad (.lexical l) s') →
      Ends (prefixes n taken) s (fun ops s' => ∃ ts t, Sees s ts (.ok t s') ∧
        (∀ u ∈ ts, Leading u) ∧ ops = ts.reverse ++ taken ∧ ¬ Leading t) bad
  | 0, _, s, hn, _ => absurd hn (Nat.not_lt_zero _)
  | n + 1, taken, s, hn, hb => by
    refine ends_peek (fun t s₁ hp => ?_) (fun e s' he => hb _ _ (fails_lexical he))
    by_cases ht : Leading t
    · rw [if_pos (isPrefixOp_iff.mpr ht)]
      refine ends_next_of_peek hp fun s₂ hn₂ => ?_
      have hne : t.kind ≠ .endOfInput := by rcases ht with ht | ht <;> rw [ht] <;> decide
      have hl : Leads ⟨true, opened⟩ s [t] ⟨true, opened⟩ s₂ :=
        .single hn₂ hne (Situation.step_leading ht)
      have hsize := size_next_lt hn₂ hne
      refine (ends_prefixes opened n (t :: taken) s₂ (by omega)
        fun e s' h => hb e s' (h.behind hl)).mono ?_ fun _ _ h => h
      rintro ops s' ⟨ts, u, hs, hts, rfl, hu⟩
      refine ⟨t :: ts, u, hl.1.sees hs, ?_, by simp, hu⟩
      intro v hv
      rcases List.mem_cons.mp hv with rfl | hv
      · exact ht
      · exact hts v hv
    · rw [if_neg (by rw [isPrefixOp_iff]; exact ht)]
      exact ends_pure ⟨[], t, ⟨s, .nil s, hp⟩, by simp, rfl, ht⟩

/-- An operand under the tokens in front of it is an operand. -/
theorem derives_applyPrefixes {ts us : List Token} {e : Expr} (hts : ∀ t ∈ ts, Leading t)
    (h : Derives .operand us e) :
    Derives .operand (ts ++ us) (applyPrefixes ts.reverse e) := by
  induction ts with
  | nil => exact h
  | cons t ts ih =>
    have happly : applyPrefixes (t :: ts).reverse e =
        .unary t.position t.value (applyPrefixes ts.reverse e) := by
      simp only [applyPrefixes, List.reverse_cons, List.foldl_append, List.foldl_cons,
        List.foldl_nil]
    rw [happly]
    exact .prefixed (hts t (by simp)) (ih fun u hu => hts u (by simp [hu]))

/-- Reading an operand with the tokens in front of it. -/
theorem unary_reads {depth : Nat} (h : ReadsAt depth) (s : TokenStream) :
    ReadsOperand .operand (unary (depth + 1)) s := by
  intro o outer
  refine ends_fuel (.bind ((ends_prefixes (o :: outer) (s.size + 1) [] s (Nat.lt_succ_self _)
    fun _ _ h => h).mono ?_ fun _ _ h => h))
  rintro ops s₁ ⟨ts, t, hs, hts, rfl, ht⟩
  have hprimary : ∀ u s', TokenStream.peek s₁ = .ok u s' → ¬ Leading u := by
    intro u s' hu
    obtain ⟨rfl, -⟩ := peek_unique hs.peek_eq hu
    exact ht
  refine .bind ((h.primary s₁ hprimary o outer).mono ?_ fun e s' hf =>
    Fails.behind_seen hs (run_leading hts) hf)
  rintro e s₂ ⟨us, hus, he⟩
  rw [List.append_nil]
  exact ends_pure ⟨ts ++ us, hs.takes_append hus he.ne_nil,
    derives_applyPrefixes hts he.operand_of_primary⟩

/-- Proper links lead from behind an operand to behind an operand. -/
theorem run_chain {ks : List Link} (h : ∀ k ∈ ks, k.Proper) :
    Situation.run ⟨false, o :: outer⟩ (chainTokens ks) = some ⟨false, o :: outer⟩ := by
  induction ks with
  | nil => rfl
  | cons k ks ih =>
    obtain ⟨hk, hus⟩ := h k (by simp)
    rw [chainTokens_cons, Situation.run_cons, Situation.step_operator hk, Option.bind_some]
    exact Situation.run_trans (hus.run o outer) (ih fun x hx => h x (by simp [hx]))

/-- The loop over the links of a chain. The links that were read are `done` and grouped already;
    what makes the next one fit on top of them is that its operator, if it is taken at all, binds
    no tighter than any of them. -/
theorem ends_climb {operand : Parser Expr} {tighter : Expr → Int → Parser Expr} {min : Int}
    {first : Expr} (ho : ∀ s, ReadsOperand .operand operand s)
    (ht : ∀ left p s, ReadsChain left p (tighter left p) s) {bad : ParseError → TokenStream → Prop} :
    ∀ (n : Nat) (left : Expr) (done : List Link) (s : TokenStream), s.size < n →
      Grouped first done left →
      (∀ t s', TokenStream.peek s = .ok t s' → t.kind.precedence = 0 ∨
        (t.kind.precedence : Int) < min ∨ ∀ k ∈ done, t.kind.precedence ≤ k.precedence) →
      (∀ e s', Fails ⟨false, o :: outer⟩ s e s' → bad e s') →
      Ends (climb operand tighter min n left) s (fun e s' => ∃ ks t,
        Sees s (chainTokens ks) (.ok t s') ∧
        (∀ k ∈ ks, k.Proper ∧ min ≤ (k.precedence : Int)) ∧ Grouped first (done ++ ks) e ∧
        (t.kind.precedence = 0 ∨ (t.kind.precedence : Int) < min)) bad
  | 0, _, _, s, hn, _, _, _ => absurd hn (Nat.not_lt_zero _)
  | n + 1, left, done, s, hn, hg, hd, hb => by
    refine ends_next (fun t s₁ hs₁ => ?_) (fun e s' he => hb _ _ (fails_lexical he))
    have hp := (peek_of_next hs₁).2
    by_cases hstop : t.kind.precedence = 0 ∨ (t.kind.precedence : Int) < min
    · rw [if_pos hstop]
      refine ends_pushBack hs₁ fun s₂ hs₂ => ends_pure ⟨[], t, ⟨s, .nil s, hs₂⟩, by simp, ?_, hstop⟩
      rw [List.append_nil]
      exact hg
    · rw [if_neg hstop]
      obtain ⟨hpos, hmin⟩ := not_or.mp hstop
      have hdone : ∀ k ∈ done, t.kind.precedence ≤ k.precedence := by
        rcases hd t _ hp with h | h | h
        · exact absurd h hpos
        · exact absurd h hmin
        · exact h
      have hne : t.kind ≠ .endOfInput := fun h => hpos (by rw [h]; rfl)
      have hl : Leads ⟨false, o :: outer⟩ s [t] ⟨true, o :: outer⟩ s₁ :=
        .single hs₁ hne (Situation.step_operator hpos)
      refine .bind ((ho s₁ o outer).mono ?_ fun e s' hf => hb e s' (hf.behind hl))
      rintro x s₂ ⟨us, hus, hx⟩
      have hl := hl.trans ⟨hus, hx.run o outer⟩
      refine .bind ((ht x _ s₂ o outer).mono ?_ fun e s' hf => hb e s' (hf.behind hl))
      rintro r s₃ ⟨ks, u, hs₃, hks, hgr, hu⟩
      have hks' : ∀ k ∈ ks, t.kind.precedence < k.precedence := fun k hk => by
        have := (hks k hk).2
        omega
      have hsees : Sees s ([t] ++ us ++ chainTokens ks) (.ok u s₃) := hl.1.sees hs₃
      have hsize := hsees.size_le
      simp only [List.length_append, List.length_cons, List.length_nil] at hsize
      have hg' : Grouped first (done ++ ⟨t, us, x⟩ :: ks) (.binary t.position t.value left r) :=
        .split (k := ⟨t, us, x⟩) hdone hks' hg hgr
      refine (ends_climb ho ht n _ _ s₃ (by omega) hg' ?_ fun e s' hf => hb e s' ?_).mono ?_
        fun _ _ h => h
      · -- the token that ended the right operand binds no tighter than the operator in front of it
        intro v s' hv
        obtain ⟨rfl, -⟩ := peek_unique hv hs₃.peek_eq
        have hv : v.kind.precedence ≤ t.kind.precedence := by omega
        exact .inr (.inr (List.forall_mem_append.mpr ⟨fun k hk => Nat.le_trans hv (hdone k hk),
          List.forall_mem_cons.mpr ⟨hv, fun k hk => Nat.le_of_lt (Nat.lt_of_le_of_lt hv (hks' k hk))⟩⟩))
      · exact hf.behind_seen hsees (Situation.run_trans hl.2 (run_chain fun k hk => (hks k hk).1))
      · rintro e s₄ ⟨ls, v, hs₄, hls, hge, hv⟩
        refine ⟨⟨t, us, x⟩ :: (ks ++ ls), v, ?_, ?_, ?_, hv⟩
        · simpa [chainTokens_append] using hsees.trans hs₄
        · refine List.forall_mem_cons.mpr ⟨⟨⟨hpos, hx⟩, Int.not_lt.mp hmin⟩, ?_⟩
          refine List.forall_mem_append.mpr ⟨fun k hk => ⟨(hks k hk).1, ?_⟩, hls⟩
          have := hks' k hk
          omega
        · simpa using hge

/-- Reading on from an operand. -/
theorem binary_reads {depth : Nat} (h : ReadsAt depth) (left : Expr) (min : Int)
    (s : TokenStream) : ReadsChain left min (binary (depth + 1) left min) s := by
  intro o outer
  exact ends_fuel (ends_climb h.unary h.binary (s.size + 1) left [] s (Nat.lt_succ_self _)
    (.nil left) (fun _ _ _ => .inr (.inr (by simp))) fun _ _ h => h)

/-- Reading an expression: an operand and the whole chain behind it. -/
theorem expression_reads {depth : Nat} (h : ReadsAt depth) (s : TokenStream) :
    ReadsSentence (expression (depth + 1)) s := by
  intro o outer
  refine .bind ((h.unary s o outer).mono ?_ fun _ _ h => h)
  rintro left s₁ ⟨us, hus, hleft⟩
  have hl : Leads ⟨true, o :: outer⟩ s us ⟨false, o :: outer⟩ s₁ := ⟨hus, hleft.run o outer⟩
  refine (h.binary left 1 s₁ o outer).mono ?_ fun e s' hf => hf.behind hl
  rintro e s₂ ⟨ks, t, hs, hks, hg, ht⟩
  refine ⟨us ++ chainTokens ks, t, hl.1.sees hs, ?_, by omega⟩
  refine derives_of_grouped hg (by decide) hleft fun k hk => ⟨(hks k hk).1, ?_⟩
  have := (hks k hk).2
  simp only [Category.rank]
  omega

end Readers

/-- The readers do what they are for, whatever the budget of depth. -/
theorem readsAt (depth : Nat) : ReadsAt depth := by
  induction depth with
  | zero =>
    constructor
    · exact fun s o outer => ends_throw trivial
    · exact fun left min s o outer => ends_throw trivial
    · exact fun s o outer => ends_throw trivial
    · exact fun s _ o outer => ends_throw trivial
    · exact fun s _ o outer => ends_throw trivial
  | succ depth ih =>
    exact ⟨expression_reads ih, binary_reads ih, unary_reads ih, primary_reads ih,
      conditional_reads ih⟩

/-- An operand that was read takes the tokens of an operand. -/
theorem exists_takes_of_unary {depth : Nat} {s s' : TokenStream} {x : Expr}
    (h : unary depth s = .ok x s') : ∃ us, Takes s us s' ∧ Derives .operand us x :=
  ((readsAt depth).unary s .input []).of_ok h

/-- Reading a whole text: a sentence and the end of the input behind it. -/
theorem complete_reads (depth : Nat) (s : TokenStream) :
    Ends (complete depth) s
      (fun e s' => ∃ ts t, Sees s ts (.ok t s') ∧ t.kind = .endOfInput ∧ Sentence ts e)
      (Fails .start s) := by
  cases depth with
  | zero => exact ends_throw trivial
  | succ depth =>
    refine .bind (((readsAt depth).expression s .input []).mono ?_ fun _ _ h => h)
    rintro e s₁ ⟨ts, t, hs, hts, ht⟩
    have hp := hs.peek_eq
    refine ends_peek (fun u s₂ hu => ?_) (fun l s' hl => ?_)
    · obtain ⟨rfl, rfl⟩ := peek_unique hp hu
      by_cases hk : t.kind = .endOfInput
      · rw [if_pos hk]
        exact ends_pure ⟨ts, t, hs, hk, hts⟩
      · rw [if_neg hk]
        exact ends_throw ⟨ts, _, hs, hts.run, Situation.step_eq_none (o := .input) ht hk, rfl⟩
    · rw [hp] at hl
      cases hl

end ExprLang.Parser

namespace ExprLang

open Grammar TokenStream

/-! ### Outcomes of a whole text -/

section Outcomes

variable {depth : Nat} {s : String} {e : Expr}

/-- A text with a tree consists of a sentence, with this tree, and the end of the input. -/
theorem run_of_parseWithin_ok (h : parseWithin depth s = .ok e) :
    ∃ ts last, (Lexer.run (Cursor.ofText s)).tokens = ts ++ [last] ∧
      (Lexer.run (Cursor.ofText s)).error? = none ∧ last.kind = .endOfInput ∧ Sentence ts e := by
  unfold parseWithin at h
  split at h
  · rename_i e' s' hc
    obtain ⟨ts, t, hs, ht, hts⟩ := (Parser.complete_reads depth (ofText s)).of_ok hc
    obtain ⟨rest, htok, hend⟩ := hs.run_of_ok
    obtain ⟨rfl, herr⟩ := hend ht
    injection h with h
    exact ⟨ts, t, htok, herr, ht, h ▸ hts⟩
  · cases h

/-- A text without a tree fails as the readers do. -/
theorem fails_of_parseWithin_error {err : ParseError} (h : parseWithin depth s = .error err) :
    ∃ s', Parser.Fails .start (ofText s) err s' := by
  unfold parseWithin at h
  split at h
  · cases h
  · rename_i e' s' hc
    injection h with h
    exact ⟨s', h ▸ (Parser.complete_reads depth (ofText s)).of_error hc⟩

/-- All tokens in front of a lexical failure that is reported fit. -/
theorem run_of_parseWithin_lexical {l : LexError} (h : parseWithin depth s = .error (.lexical l)) :
    (Lexer.run (Cursor.ofText s)).error? = some l ∧
      ∃ σ, Situation.start.run (Lexer.run (Cursor.ofText s)).tokens = some σ := by
  obtain ⟨s', ts, σ, hs, hσ⟩ := fails_of_parseWithin_error h
  obtain ⟨htok, herr⟩ := hs.run_of_error
  exact ⟨herr, σ, htok ▸ hσ⟩

/-- A token that is reported does not fit behind the tokens in front of it, which do. -/
theorem run_of_parseWithin_unexpected {t : Token} {production : Production}
    (h : parseWithin depth s = .error (.unexpected t production)) :
    ∃ ts rest σ, (Lexer.run (Cursor.ofText s)).tokens = ts ++ t :: rest ∧
      (∀ u ∈ ts, u.kind ≠ .endOfInput) ∧ Situation.start.run ts = some σ ∧ σ.step t = none ∧
      production = σ.production := by
  obtain ⟨s', ts, σ, hs, hσ, ht, hp⟩ := fails_of_parseWithin_error h
  obtain ⟨rest, htok, _⟩ := hs.run_of_ok
  obtain ⟨s₁, htakes, _⟩ := hs
  exact ⟨ts, rest, σ, htok, htakes.ne_endOfInput, hσ, ht, hp⟩

theorem parseWithin_ne_slotOccupied (o : SlotOccupied) :
    parseWithin depth s ≠ .error (.slotOccupied o) := fun h =>
  (fails_of_parseWithin_error h).elim fun _ hf => hf

end Outcomes

end ExprLang

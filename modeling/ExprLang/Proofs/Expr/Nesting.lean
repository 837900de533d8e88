import ExprLang.Proofs.Expr.OpenConstructs
import ExprLang.Proofs.Token.Remainder

/-! How deep readers call one another.

    Between one open construct and the next, the readers call one another at most ten times: an
    expression, a run of operators for each of the six precedences, an operand with the operators in
    front of it, the operand, and a choice. So a reader lacks depth only if tokens that fit open many
    constructs at once (`Lacks`). How long the runs of operators are makes no difference, because the
    smallest precedence that a run takes rises with every call (`climb_lacks`). -/

namespace ExprLang

open Grammar TokenStream

/-! ### Constructs that are open at once -/

namespace Grammar

/-- The largest number of constructs that are open at once on the way through some tokens, those
    that were open in front of them included. -/
def nestingFrom (opened : List Production) : List Token → Nat
  | [] => opened.length
  | t :: ts => max opened.length (nestingFrom (openedBy opened t) ts)

/-- The largest number of parentheses and choices that some tokens keep open at once. -/
def nesting (ts : List Token) : Nat := nestingFrom [] ts

theorem length_foldl_openedBy_le {us ts : List Token} (h : us <+: ts) (opened : List Production) :
    (us.foldl openedBy opened).length ≤ nestingFrom opened ts := by
  induction us generalizing ts opened with
  | nil =>
    rw [List.foldl_nil]
    cases ts with
    | nil => exact Nat.le_refl _
    | cons t ts => exact Nat.le_max_left _ _
  | cons u us ih =>
    obtain ⟨vs, rfl⟩ := h
    have hrest := ih (List.prefix_append us vs) (openedBy opened u)
    rw [List.foldl_cons, List.cons_append, nestingFrom]
    exact Nat.le_trans hrest (Nat.le_max_right _ _)

/-- In the situation behind some tokens, the input is open and at most as many constructs as they
    keep open at once. -/
theorem length_opened_le {us ts : List Token} {σ : Situation} (h : Situation.start.run us = some σ)
    (hus : ∀ t ∈ us, t.kind ≠ .endOfInput) (hts : us <+: ts) :
    σ.opened.length ≤ nesting ts + 1 := by
  have hopen := congrArg List.length (production_opened h hus)
  rw [List.length_map, List.length_append, List.length_singleton] at hopen
  have hle := length_foldl_openedBy_le hts []
  rw [hopen]
  exact Nat.succ_le_succ hle

end Grammar

/-! ### Readers that lack depth -/

namespace Parser

theorem Ends.and {α : Type} {x : Parser α} {s : TokenStream} {good good' : α → TokenStream → Prop}
    {bad bad' : ParseError → TokenStream → Prop} (h : Ends x s good bad) (h' : Ends x s good' bad') :
    Ends x s (fun a s' => good a s' ∧ good' a s') (fun e s' => bad e s' ∧ bad' e s') := by
  unfold Ends at *
  cases hx : x s with
  | ok a s' =>
    rw [hx] at h h'
    exact ⟨h, h'⟩
  | error e s' =>
    rw [hx] at h h'
    exact ⟨h, h'⟩

/-- Depth is lacking only if tokens that fit open more constructs than there is room for: each takes
    ten, and `room` is there for those still to be opened. -/
def Lacks (σ : Situation) (s : TokenStream) (room : Int) : ParseError → TokenStream → Prop :=
  fun e _ => e = .tooDeep → ∃ ts σ' s', Leads σ s ts σ' s' ∧
    room + 10 * σ.opened.length < 10 * σ'.opened.length

/-- Where a reader goes on does not matter to whether it lacks depth. -/
abbrev Anyhow {α : Type} (_ : α) (_ : TokenStream) : Prop := True

section Lacks

variable {σ σ₁ : Situation} {s s₁ s' : TokenStream} {ts : List Token} {room room₁ : Int}
  {e : ParseError}

theorem lacks_of_ne (h : e ≠ .tooDeep) : Lacks σ s room e s' := fun he => absurd he h

/-- There is no room where no more construct fits. -/
theorem lacks_tooDeep (h : room < 0) : Lacks σ s room .tooDeep s' :=
  fun _ => ⟨[], σ, s, ⟨.nil s, rfl⟩, by omega⟩

/-- Constructs that are opened behind tokens that fit are opened behind what is in front of them. -/
theorem Lacks.behind (hl : Leads σ s ts σ₁ s₁) (h : Lacks σ₁ s₁ room₁ e s')
    (hroom : room + 10 * σ.opened.length ≤ room₁ + 10 * σ₁.opened.length) :
    Lacks σ s room e s' := by
  intro he
  obtain ⟨us, σ', s'', hl', hlt⟩ := h he
  exact ⟨ts ++ us, σ', s'', hl.trans hl', by omega⟩

theorem Lacks.behind_seen {t : Token} (hs : Sees s ts (.ok t s₁)) (hr : σ.run ts = some σ₁)
    (h : Lacks σ₁ s₁ room₁ e s')
    (hroom : room + 10 * σ.opened.length ≤ room₁ + 10 * σ₁.opened.length) :
    Lacks σ s room e s' := by
  intro he
  obtain ⟨us, σ', s'', ⟨htakes, hrun⟩, hlt⟩ := h he
  have hrun' := Situation.run_trans hr hrun
  cases us with
  | nil =>
    obtain ⟨s₂, hts, -⟩ := hs
    rw [List.append_nil] at hrun'
    exact ⟨ts, σ', s₂, ⟨hts, hrun'⟩, by omega⟩
  | cons u us =>
    exact ⟨_, σ', s'', ⟨hs.takes_append htakes (List.cons_ne_nil u us), hrun'⟩, by omega⟩

end Lacks

/-- The readers with a budget of `depth` lack depth only if there is no room left for the constructs
    that are opened: the room is what the budget has beyond the calls of the innermost construct. -/
structure LacksAt (depth : Nat) : Prop where
  expression : ∀ o outer s, Ends (expression depth) s Anyhow
    (Lacks ⟨true, o :: outer⟩ s (depth - 9))
  binary : ∀ o outer left (min : Int) s, min ≤ 7 → Ends (binary depth left min) s Anyhow
    (Lacks ⟨false, o :: outer⟩ s (depth + min - 9))
  unary : ∀ o outer s, Ends (unary depth) s Anyhow (Lacks ⟨true, o :: outer⟩ s (depth - 2))
  primary : ∀ o outer s, Ends (primary depth) s Anyhow (Lacks ⟨true, o :: outer⟩ s (depth - 1))
  conditional : ∀ o outer s i s', TokenStream.peek s = .ok i s' → i.kind = .keyword .ifWord →
    Ends (conditional depth) s Anyhow (Lacks ⟨true, o :: outer⟩ s depth)

section Readers

variable {depth : Nat} {o : Opening} {outer : List Opening} {s s₁ : TokenStream}

/-- A sentence inside a construct has a construct more around it than what the construct stands in,
    which is why it has room for one less. -/
theorem closing_lacks (h : LacksAt depth) (ho : o ≠ .input) {σ : Situation} {ts : List Token}
    {room : Int} (hl : Leads σ s ts ⟨true, o :: outer⟩ s₁)
    (hroom : room + 10 * σ.opened.length ≤ depth - 9 + 10 * (outer.length + 1))
    {f : Expr → Token → Parser Expr}
    (hf : ∀ us e t s', Leads σ s (ts ++ (us ++ [t])) (o.closed outer) s' →
      Ends (f e t) s' Anyhow (Lacks σ s room)) :
    Ends (expression depth >>= fun e => expect o.closing o.production >>= f e) s₁ Anyhow
      (Lacks σ s room) := by
  have hread := ((readsAt depth).expression s₁ o outer).and (h.expression o outer s₁)
  have hgo : ∀ us e t s', Leads ⟨true, o :: outer⟩ s₁ (us ++ [t]) (o.closed outer) s' →
      Sentence us e → t.kind = o.closing → Ends (f e t) s' Anyhow (Lacks σ s room) :=
    fun us e t s' hl' _ _ => hf us e t s' (hl.trans hl')
  refine ends_closing ho (hread.mono (fun _ _ h => h.1) fun e s' h => ?_) hgo
    fun t s' _ => lacks_of_ne (by simp)
  exact h.2.behind hl (by simpa using hroom)

theorem conditional_lacks (h : LacksAt depth) (o : Opening) (outer : List Opening)
    (s : TokenStream) :
    Ends (conditional (depth + 1)) s Anyhow (Lacks ⟨true, o :: outer⟩ s (depth + 1 : Nat)) := by
  refine ends_expect (fun i s₁ hi hk => ?_) (fun t s' _ _ => lacks_of_ne (by simp))
    (fun e s' _ => lacks_of_ne (by simp))
  have hl : Leads ⟨true, o :: outer⟩ s [i] ⟨true, .condition :: o :: outer⟩ s₁ :=
    .single hi (by rw [hk]; decide) (Situation.step_ifWord hk)
  have hroom (n : Nat) : ((depth + 1 : Nat) : Int) + 10 * (n : Nat) ≤ depth - 9 + 10 * (n + 1) := by
    omega
  refine closing_lacks h (o := .condition) (by decide) hl (hroom _) fun us c t s₂ hl => ?_
  refine closing_lacks h (o := .consequent) (by decide) hl (hroom _) fun us x t s₃ hl => ?_
  refine closing_lacks h (o := .alternative) (by decide) hl (hroom _) fun us y t s₄ hl => ?_
  exact ends_pure trivial

theorem primary_lacks (h : LacksAt depth) (o : Opening) (outer : List Opening) (s : TokenStream) :
    Ends (primary (depth + 1)) s Anyhow (Lacks ⟨true, o :: outer⟩ s ((depth + 1 : Nat) - 1)) := by
  refine ends_peek (fun t s₁ hp => ?_) (fun e s' _ => lacks_of_ne (by simp))
  split
  · exact ends_next_of_peek hp fun s₂ _ => ends_pure trivial
  · exact ends_next_of_peek hp fun s₂ _ => ends_pure trivial
  · rename_i hk
    refine ends_next_of_peek hp fun s₂ hn => ?_
    have hl : Leads ⟨true, o :: outer⟩ s [t] ⟨true, .parenthesis :: o :: outer⟩ s₂ :=
      .single hn (by rw [hk]; decide) (Situation.step_leftParen hk)
    refine closing_lacks h (o := .parenthesis) (by decide) hl ?_ fun us e r s₃ _ => ?_
    · simp only [List.length_cons]
      omega
    · exact ends_pure trivial
  · rename_i hk
    have hsees : Sees s [] (.ok t s₁) := ⟨s, .nil s, hp⟩
    have hread := h.conditional o outer s₁ t s₁ (peek_peek hp) hk
    refine hread.mono (fun _ _ h => h) fun e s' he => ?_
    exact he.behind_seen hsees rfl (by omega)
  · exact ends_throw (lacks_of_ne (by simp))

/-- The operators in front of an operand are taken in a loop, which takes no depth. -/
theorem unary_lacks (h : LacksAt depth) (o : Opening) (outer : List Opening) (s : TokenStream) :
    Ends (unary (depth + 1)) s Anyhow (Lacks ⟨true, o :: outer⟩ s ((depth + 1 : Nat) - 2)) := by
  refine ends_fuel (.bind ((ends_prefixes (o :: outer) (s.size + 1) [] s (Nat.lt_succ_self _)
    fun _ _ _ => lacks_of_ne (by simp)).mono ?_ fun _ _ h => h))
  rintro ops s₁ ⟨ts, t, hs, hts, -, -⟩
  refine .bind ((h.primary o outer s₁).mono (fun _ _ _ => ends_pure trivial) fun e s' he => ?_)
  exact he.behind_seen hs (run_leading hts) (by omega)

/-- A run of operators takes only those that bind at least as tightly as `min`, and the right operand
    of each goes on with tighter ones. -/
theorem climb_lacks (h : LacksAt depth) {min : Int} (o : Opening) (outer : List Opening) (n : Nat)
    (left : Expr) (s : TokenStream) (hn : s.size < n) :
    Ends (climb (unary depth) (binary depth) min n left) s Anyhow
      (Lacks ⟨false, o :: outer⟩ s ((depth + 1 : Nat) + min - 9)) := by
  induction n generalizing left s with
  | zero => exact absurd hn (Nat.not_lt_zero _)
  | succ n ih =>
    refine ends_next (fun t s₁ hs₁ => ?_) (fun e s' _ => lacks_of_ne (by simp))
    by_cases hstop : t.kind.precedence = 0 ∨ (t.kind.precedence : Int) < min
    · rw [if_pos hstop]
      exact ends_pushBack hs₁ fun s₂ _ => ends_pure trivial
    · rw [if_neg hstop]
      obtain ⟨hpos, hmin⟩ := not_or.mp hstop
      obtain ⟨c, -, -, -, hrank, hsix⟩ := Category.exists_mem_operators hpos
      have hne : t.kind ≠ .endOfInput := fun h => hpos (by rw [h]; rfl)
      have hl : Leads ⟨false, o :: outer⟩ s [t] ⟨true, o :: outer⟩ s₁ :=
        .single hs₁ hne (Situation.step_operator hpos)
      have hfirst := ((readsAt depth).unary s₁ o outer).and (h.unary o outer s₁)
      refine .bind (hfirst.mono ?_ fun e s' he => he.2.behind hl (by simp only; omega))
      rintro x s₂ ⟨⟨us, hus, hx⟩, -⟩
      have hl := hl.trans ⟨hus, hx.run o outer⟩
      have hright := ((readsAt depth).binary x (t.kind.precedence + 1) s₂ o outer).and
        (h.binary o outer x (t.kind.precedence + 1) s₂ (by omega))
      refine .bind (hright.mono ?_ fun e s' he => he.2.behind hl (by simp only; omega))
      rintro r s₃ ⟨⟨ks, u, hs₃, hks, -⟩, -⟩
      have hsees : Sees s ([t] ++ us ++ chainTokens ks) (.ok u s₃) := hl.1.sees hs₃
      have hsize := hsees.size_le
      simp only [List.length_append, List.length_cons, List.length_nil] at hsize
      refine (ih _ s₃ (by omega)).mono (fun _ _ h => h) fun e s' he => ?_
      exact he.behind_seen hsees
        (Situation.run_trans hl.2 (run_chain fun k hk => (hks k hk).1)) (Int.le_refl _)

theorem binary_lacks (h : LacksAt depth) (o : Opening) (outer : List Opening) (left : Expr)
    (min : Int) (s : TokenStream) : Ends (binary (depth + 1) left min) s Anyhow
      (Lacks ⟨false, o :: outer⟩ s ((depth + 1 : Nat) + min - 9)) :=
  ends_fuel (climb_lacks h o outer (s.size + 1) left s (Nat.lt_succ_self _))

theorem expression_lacks (h : LacksAt depth) (o : Opening) (outer : List Opening)
    (s : TokenStream) : Ends (expression (depth + 1)) s Anyhow
      (Lacks ⟨true, o :: outer⟩ s ((depth + 1 : Nat) - 9)) := by
  have hfirst := ((readsAt depth).unary s o outer).and (h.unary o outer s)
  refine .bind (hfirst.mono ?_ fun e s' he => he.2.behind ⟨.nil s, rfl⟩ (by simp only; omega))
  rintro left s₁ ⟨⟨us, hus, hleft⟩, -⟩
  have hl : Leads ⟨true, o :: outer⟩ s us ⟨false, o :: outer⟩ s₁ := ⟨hus, hleft.run o outer⟩
  refine (h.binary o outer left 1 s₁ (by decide)).mono (fun _ _ h => h) fun e s' he => ?_
  exact he.behind hl (by simp only; omega)

end Readers

/-- The readers lack depth only where there is no room, whatever the budget. -/
theorem lacksAt (depth : Nat) : LacksAt depth := by
  induction depth with
  | zero =>
    constructor
    · exact fun o outer s => ends_throw (lacks_tooDeep (by decide))
    · exact fun o outer left min s hmin => ends_throw (lacks_tooDeep (by omega))
    · exact fun o outer s => ends_throw (lacks_tooDeep (by decide))
    · exact fun o outer s => ends_throw (lacks_tooDeep (by decide))
    · -- the choice is yet to be opened, by the word that was looked at
      intro o outer s i s' hp hk
      have hl : Leads ⟨true, o :: outer⟩ s [i] ⟨true, .condition :: o :: outer⟩ ⟨s'.cursor, none⟩ :=
        .single (next_of_peek hp).2 (by rw [hk]; decide) (Situation.step_ifWord hk)
      refine ends_throw fun _ => ⟨[i], _, _, hl, ?_⟩
      simp only [List.length_cons]
      omega
  | succ depth ih =>
    exact ⟨expression_lacks ih, fun o outer left min s _ => binary_lacks ih o outer left min s,
      unary_lacks ih, primary_lacks ih, fun o outer s _ _ _ _ => conditional_lacks ih o outer s⟩

theorem complete_lacks (depth : Nat) (s : TokenStream) :
    Ends (complete depth) s Anyhow (Lacks .start s (depth - 10)) := by
  cases depth with
  | zero => exact ends_throw (lacks_tooDeep (by decide))
  | succ depth =>
    have hread := (lacksAt depth).expression .input [] s
    refine .bind (hread.mono (fun e s₁ _ => ?_) fun e s' he => ?_)
    · refine ends_peek (fun t s₂ _ => ?_) (fun l s' _ => lacks_of_ne (by simp))
      by_cases ht : t.kind = .endOfInput
      · rw [if_pos ht]
        exact ends_pure trivial
      · rw [if_neg ht]
        exact ends_throw (lacks_of_ne (by simp))
    · exact he.behind ⟨.nil s, rfl⟩ (by simp only [Situation.start]; omega)

end Parser

/-! ### The tokens that are consumed -/

namespace TokenStream

/-- Of two runs of tokens that are taken from a stream, one goes on where the other ends. -/
theorem Takes.prefix_or {s s₁ s₂ : TokenStream} {ts us : List Token} (h : Takes s ts s₁)
    (h' : Takes s us s₂) : us <+: ts ∨ ∃ t vs s', us = ts ++ t :: vs ∧ next s₁ = .ok t s' ∧
      t.kind ≠ .endOfInput := by
  induction h generalizing us with
  | nil s =>
    cases h' with
    | nil => exact .inl (List.prefix_refl [])
    | cons hn ht _ => exact .inr ⟨_, _, _, rfl, hn, ht⟩
  | cons hn ht _ ih =>
    cases h' with
    | nil => exact .inl List.nil_prefix
    | cons hn' _ hus =>
      obtain ⟨rfl, rfl⟩ := next_unique hn hn'
      rcases ih hus with hus | ⟨t, vs, s', rfl, hnext, ht⟩
      · exact .inl (List.cons_prefix_cons.mpr ⟨rfl, hus⟩)
      · exact .inr ⟨t, vs, s', rfl, hnext, ht⟩

/-- The same tokens lead to the same stream. -/
theorem Takes.unique {s s₁ s₂ : TokenStream} {ts : List Token} (h : Takes s ts s₁)
    (h' : Takes s ts s₂) : s₁ = s₂ := by
  induction h with
  | nil s =>
    cases h'
    rfl
  | cons hn _ _ ih =>
    cases h' with
    | cons hn' _ h' =>
      obtain ⟨-, rfl⟩ := next_unique hn hn'
      exact ih h'

/-- The tokens `ts` of a stream can be taken and fit, and no more tokens than these. -/
structure Fills (s : TokenStream) (ts : List Token) (s' : TokenStream) : Prop where
  takes : Takes s ts s'
  fit : ∃ σ, Situation.start.run ts = some σ
  all : ∀ us σ s₂, Takes s us s₂ → Situation.start.run us = some σ → us <+: ts

theorem fills_of_step {s s' : TokenStream} {ts : List Token} {σ : Situation} (h : Takes s ts s')
    (hrun : Situation.start.run ts = some σ)
    (hstop : ∀ t s₂, next s' = .ok t s₂ → t.kind = .endOfInput ∨ σ.step t = none) :
    Fills s ts s' := by
  refine ⟨h, ⟨σ, hrun⟩, fun us σ' s₂ hus hrun' => ?_⟩
  rcases h.prefix_or hus with hprefix | ⟨t, vs, s₃, rfl, hnext, ht⟩
  · exact hprefix
  · rw [Situation.run_append, hrun, Option.bind_some, Situation.run_cons] at hrun'
    rcases hstop t s₃ hnext with hend | hnone
    · exact absurd hend ht
    · rw [hnone] at hrun'
      cases hrun'

theorem Fills.unique {s s₁ s₂ : TokenStream} {ts us : List Token} (h : Fills s ts s₁)
    (h' : Fills s us s₂) : ts = us ∧ s₁ = s₂ := by
  obtain ⟨σ, hrun⟩ := h.fit
  obtain ⟨σ', hrun'⟩ := h'.fit
  have hle := h.all us σ' s₂ h'.takes hrun'
  have hge := h'.all ts σ s₁ h.takes hrun
  obtain rfl : ts = us := hge.eq_of_length (Nat.le_antisymm hge.length_le hle.length_le)
  exact ⟨rfl, h.takes.unique h'.takes⟩

end TokenStream

section Consumed

variable {depth : Nat} {text : String}

/-- A reading of a whole text that does not lack depth takes all tokens that fit, and looks at what
    is behind them. -/
theorem exists_fills (h : parseWithin depth text ≠ .error .tooDeep) : ∃ ts s,
    Fills (ofText text) ts s ∧ stateOf (Parser.complete depth (ofText text)) = stateOf (peek s) := by
  have hread := Parser.complete_reads depth (ofText text)
  unfold parseWithin at h
  cases hc : Parser.complete depth (ofText text) with
  | ok e s' =>
    obtain ⟨ts, t, ⟨s, hts, hp⟩, ht, he⟩ := hread.of_ok hc
    refine ⟨ts, s, fills_of_step hts he.run fun u s₂ hu => ?_, by rw [hp]; rfl⟩
    obtain ⟨rfl, -⟩ := next_unique (next_of_peek hp).2 hu
    exact .inl ht
  | error err s' =>
    have hread := hread.of_error hc
    rw [hc] at h
    cases err with
    | lexical l =>
      obtain ⟨ts, σ, ⟨s, hts, hp⟩, hσ⟩ := hread
      refine ⟨ts, s, fills_of_step hts hσ fun u s₂ hu => ?_, by rw [hp]; rfl⟩
      rw [peek_eq_error_iff.mp hp] at hu
      cases hu
    | unexpected t production =>
      obtain ⟨ts, σ, ⟨s, hts, hp⟩, hσ, ht, -⟩ := hread
      refine ⟨ts, s, fills_of_step hts hσ fun u s₂ hu => ?_, by rw [hp]; rfl⟩
      obtain ⟨rfl, -⟩ := next_unique (next_of_peek hp).2 hu
      exact .inr ht
    | slotOccupied o => exact hread.elim
    | tooDeep => exact absurd rfl h

/-- A budget that is too small is below ten for each of the constructs that are open behind some
    tokens that fit, the input among them. -/
theorem exists_opened_of_tooDeep (h : parseWithin depth text = .error .tooDeep) :
    ∃ us σ s, Takes (ofText text) us s ∧ Situation.start.run us = some σ ∧
      depth < 10 * σ.opened.length := by
  have hread := Parser.complete_lacks depth (ofText text)
  unfold parseWithin at h
  cases hc : Parser.complete depth (ofText text) with
  | ok e s' =>
    rw [hc] at h
    cases h
  | error err s' =>
    rw [hc] at h
    injection h with h
    obtain ⟨us, σ, s, ⟨hus, hrun⟩, hlt⟩ := hread.of_error hc h
    refine ⟨us, σ, s, hus, hrun, ?_⟩
    simp only [Situation.start, List.length_singleton] at hlt
    omega

/-- A budget of ten for every construct that the tokens of a text keep open at once, and of ten
    more, is never too small. -/
theorem parseWithin_ne_tooDeep {ts : List Token}
    (hall : ∀ us σ s, Takes (ofText text) us s → Situation.start.run us = some σ → us <+: ts)
    (hdepth : 10 * (nesting ts + 1) ≤ depth) : parseWithin depth text ≠ .error .tooDeep := by
  intro h
  obtain ⟨us, σ, s, hus, hrun, hlt⟩ := exists_opened_of_tooDeep h
  have hle := length_opened_le hrun hus.ne_endOfInput (hall us σ s hus hrun)
  omega

theorem prefix_of_takes {us : List Token} {s : TokenStream} (h : Takes (ofText text) us s) :
    us <+: (Lexer.run (Cursor.ofText text)).tokens := by
  obtain ⟨c, -, htok, -⟩ := h.run rfl
  exact ⟨_, htok.symm⟩

/-- A budget of ten for every construct that the tokens of a text keep open at once, whether they are
    a sentence or not, and of ten more. -/
def DeepEnough (depth : Nat) (text : String) : Prop :=
  10 * (nesting (Lexer.run (Cursor.ofText text)).tokens + 1) ≤ depth

instance : Decidable (DeepEnough depth text) := inferInstanceAs (Decidable (_ ≤ _))

theorem DeepEnough.ne_tooDeep (h : DeepEnough depth text) :
    parseWithin depth text ≠ .error .tooDeep :=
  parseWithin_ne_tooDeep (fun _ _ _ hus _ => prefix_of_takes hus) h

/-- The depth that a reading needs does not grow with the length of a text. If the tokens `ts` of a
    text that a reading takes keep at most so many parentheses and choices open at once, then with a
    budget of ten for each of them, and of eleven more or of anything above, the reading never runs
    out of it, but takes these tokens, looks at what is behind them and ends. -/
theorem complete_takes_nesting (text : String) : ∃ ts s, Takes (ofText text) ts s ∧ ∀ spare,
    parseWithin (10 * (nesting ts + 1) + 1 + spare) text ≠ .error .tooDeep ∧
    stateOf (Parser.complete (10 * (nesting ts + 1) + 1 + spare) (ofText text)) =
      stateOf (peek s) := by
  -- Some budget is enough, and which tokens are taken does not depend on it.
  have hdeep : DeepEnough (10 * (nesting (Lexer.run (Cursor.ofText text)).tokens + 1)) text :=
    Nat.le_refl _
  obtain ⟨ts, s, hts, -⟩ := exists_fills hdeep.ne_tooDeep
  refine ⟨ts, s, hts.takes, fun spare => ?_⟩
  have henough : parseWithin (10 * (nesting ts + 1) + 1 + spare) text ≠ .error .tooDeep :=
    parseWithin_ne_tooDeep hts.all (by omega)
  obtain ⟨us, s', hus, hstate⟩ := exists_fills henough
  obtain ⟨-, rfl⟩ := hus.unique hts
  exact ⟨henough, hstate⟩

end Consumed
end ExprLang

import ExprLang.Proofs.Expr.Correspondence

/-! Expressions in front of other tokens.

    An expression that is read up to the end of a stream is read in the same way where the stream
    goes on, as long as the token behind the expression binds nothing: no reader gets to see more of
    that token than that it ends the expression. Two streams are compared of which one outlasts the
    other (`Outlasts`), and only as long as the shorter one is read without a failure; what is read
    from it is read from the longer one, at other places and with any larger budget of depth
    (`RepeatsAt`). A token that binds nothing may still stand in front of an operand. The loop over
    such tokens would take it, but in the shorter stream no operand comes then
    (`prefixes_repeats`). -/

namespace ExprLang

namespace TokenStream

variable {f : Position → Position} {s s' u u' v v' : TokenStream} {t t' : Token}

/-- The stream `s'` outlasts `s`: both give the same tokens but for their places, and then `s` ends,
    which is seen at `v`, and `s'` goes on with a token that binds nothing, which is seen at `v'`. -/
def Outlasts (f : Position → Position) (v v' s s' : TokenStream) : Prop :=
  ∃ ts t t', Sees s ts (.ok t v) ∧ t.kind = .endOfInput ∧
    Sees s' (ts.map (Token.relocate f)) (.ok t' v') ∧ t'.kind.precedence = 0

/-- Both streams give the same token, or one of them is at its end. -/
theorem Outlasts.cases (h : Outlasts f v v' s s') :
    (∃ t u u', next s = .ok t u ∧ next s' = .ok (t.relocate f) u' ∧ t.kind ≠ .endOfInput ∧
      Outlasts f v v' u u') ∨
    ∃ t t', peek s = .ok t v ∧ t.kind = .endOfInput ∧ peek s' = .ok t' v' ∧
      t'.kind.precedence = 0 := by
  obtain ⟨ts, t, t', ⟨s₁, hts, hp⟩, ht, ⟨s₁', hts', hp'⟩, ht'⟩ := h
  cases hts with
  | nil =>
    cases hts'
    exact .inr ⟨t, t', hp, ht, hp', ht'⟩
  | cons hn hne hts =>
    cases hts' with
    | cons hn' _ hts' =>
      exact .inl ⟨_, _, _, hn, hn', hne, _, t, t', ⟨s₁, hts, hp⟩, ht, ⟨s₁', hts', hp'⟩, ht'⟩

/-- It makes no difference whether the two streams were looked at. -/
theorem Outlasts.of_peek (h : Outlasts f v v' s s') (hp : peek s = .ok t u)
    (hp' : peek s' = .ok t' u') : Outlasts f v v' u u' := by
  obtain ⟨ts, e, e', hs, he, hs', he'⟩ := h
  exact ⟨ts, e, e', hs.of_peek hp, he, hs'.of_peek hp', he'⟩

end TokenStream

namespace Parser

open TokenStream

variable {f : Position → Position} {s s' u u' v v' : TokenStream} {t t' : Token}

/-! ### Single steps -/

section Steps

variable {α β : Type} {x : Parser α} {k : α → Parser β} {a : α}

theorem bind_of_ok (h : x s = .ok a u) : (x >>= k) s = k a u := by
  change EStateM.bind x k s = _
  rw [EStateM.bind, h]

theorem bind_of_error {e : ParseError} (h : x s = .error e u) : (x >>= k) s = .error e u := by
  change EStateM.bind x k s = _
  rw [EStateM.bind, h]

theorem next_ok (h : TokenStream.next s = .ok t u) : next s = .ok t u := by
  rw [next, EStateM.adaptExcept, h]

theorem peek_ok (h : TokenStream.peek s = .ok t u) : peek s = .ok t u := by
  rw [peek, EStateM.adaptExcept, h]

theorem prefixes_stops (hp : TokenStream.peek s = .ok t u) (ht : isPrefixOp t = false) (n : Nat)
    (taken : List Token) : prefixes (n + 1) taken s = .ok taken u := by
  rw [prefixes, bind_of_ok (peek_ok hp), ht]
  rfl

theorem prefixes_goes_on (hn : TokenStream.next s = .ok t u) (ht : isPrefixOp t = true) (n : Nat)
    (taken : List Token) : prefixes (n + 1) taken s = prefixes n (t :: taken) u := by
  have hp := (peek_of_next hn).2
  rw [prefixes, bind_of_ok (peek_ok hp), if_pos ht,
    bind_of_ok (next_ok ((next_eq_of_peek hp).trans hn))]

variable {operand : Parser Expr} {tighter : Expr → Int → Parser Expr} {min : Int}

theorem climb_stops (hp : TokenStream.peek s = .ok t u)
    (ht : t.kind.precedence = 0 ∨ (t.kind.precedence : Int) < min) (n : Nat) (left : Expr) :
    climb operand tighter min (n + 1) left s = .ok left u := by
  obtain ⟨hu, hn⟩ := next_of_peek hp
  have hback : pushBack t ⟨u.cursor, none⟩ = .ok () u := congrArg (EStateM.Result.ok ()) hu.symm
  rw [climb, bind_of_ok (next_ok hn), if_pos ht, bind_of_ok hback]
  rfl

theorem climb_goes_on (hn : TokenStream.next s = .ok t u)
    (ht : ¬ (t.kind.precedence = 0 ∨ (t.kind.precedence : Int) < min)) (n : Nat) (left : Expr) :
    climb operand tighter min (n + 1) left s =
      (operand >>= fun first => tighter first (t.kind.precedence + 1) >>= fun right =>
        climb operand tighter min n (.binary t.position t.value left right)) u := by
  rw [climb, bind_of_ok (next_ok hn), if_neg ht]

/-- No operand begins with the end of the input. -/
theorem primary_of_endOfInput (hp : TokenStream.peek s = .ok t u) (ht : t.kind = .endOfInput)
    (depth : Nat) : ∃ e w, primary depth s = .error e w := by
  cases depth with
  | zero => exact ⟨.tooDeep, s, rfl⟩
  | succ depth =>
    refine ⟨.unexpected t .primary, u, ?_⟩
    rw [primary, bind_of_ok (peek_ok hp), ht]
    rfl

end Steps

/-! ### Repeating what was read -/

section Repeats

variable {α β α' β' : Type}

/-- What was read from one stream without a failure is read from another, which outlasts it. -/
def Repeats (f : Position → Position) (v v' : TokenStream) (g : α → α') :
    EStateM.Result ParseError TokenStream α → EStateM.Result ParseError TokenStream α' → Prop
  | .ok a u, .ok a' u' => a' = g a ∧ Outlasts f v v' u u'
  | .ok .., .error .. => False
  | .error .., _ => True

variable {g : α → α'} {h : β → β'} {x : Parser α} {x' : Parser α'} {k : α → Parser β}
  {k' : α' → Parser β'}

theorem repeats_pure (a : α) (hs : Outlasts f v v' s s') :
    Repeats f v v' g ((pure a : Parser α) s) ((pure (g a) : Parser α') s') := ⟨rfl, hs⟩

theorem repeats_of_error {e : ParseError} (hx : x s = .error e u)
    (r : EStateM.Result ParseError TokenStream α') : Repeats f v v' g (x s) r := by
  rw [hx]
  trivial

theorem Repeats.bind (hx : Repeats f v v' g (x s) (x' s'))
    (hk : ∀ a u u', x s = .ok a u → x' s' = .ok (g a) u' → Outlasts f v v' u u' →
      Repeats f v v' h (k a u) (k' (g a) u')) :
    Repeats f v v' h ((x >>= k) s) ((x' >>= k') s') := by
  cases hr : x s with
  | error e u => exact repeats_of_error (bind_of_error hr) _
  | ok a u =>
    cases hr' : x' s' with
    | error e u' =>
      rw [hr, hr'] at hx
      exact hx.elim
    | ok a' u' =>
      rw [hr, hr'] at hx
      obtain ⟨rfl, hu⟩ := hx
      rw [bind_of_ok hr, bind_of_ok hr']
      exact hk a u u' hr hr' hu

/-- A token that is asked for is there in both streams. -/
theorem expect_repeats {kind : TokenKind} (hkind : kind ≠ .endOfInput) (production : Production)
    (hs : Outlasts f v v' s s') :
    Repeats f v v' (Token.relocate f) (expect kind production s) (expect kind production s') := by
  rcases hs.cases with ⟨t, u, u', hn, hn', -, hu⟩ | ⟨t, t', hp, ht, -⟩
  · have hp := (peek_of_next hn).2
    have hp' := (peek_of_next hn').2
    have hkept : (t.relocate f).kind = t.kind := rfl
    rw [expect, bind_of_ok (peek_ok hp), bind_of_ok (peek_ok hp'), hkept]
    by_cases hk : t.kind = kind
    · rw [if_pos hk, if_pos hk, next_ok ((next_eq_of_peek hp).trans hn),
        next_ok ((next_eq_of_peek hp').trans hn')]
      exact ⟨rfl, hu⟩
    · rw [if_neg hk]
      exact repeats_of_error rfl _
  · have hk : t.kind ≠ kind := fun hk => hkind (hk.symm.trans ht)
    rw [expect, bind_of_ok (peek_ok hp), if_neg hk]
    exact repeats_of_error rfl _

/-! ### Loops -/

/-- The operators in front of an operand are taken from both streams alike, unless the shorter one
    is at its end behind them. -/
theorem prefixes_repeats (n n' : Nat) (taken : List Token) (hn : s.size < n) (hn' : s'.size < n')
    (hs : Outlasts f v v' s s') :
    Repeats f v v' (List.map (Token.relocate f)) (prefixes n taken s)
      (prefixes n' (taken.map (Token.relocate f)) s') ∨
    ∃ ops t, prefixes n taken s = .ok ops v ∧ TokenStream.peek v = .ok t v ∧
      t.kind = .endOfInput := by
  induction n generalizing n' taken s s' with
  | zero => exact absurd hn (Nat.not_lt_zero _)
  | succ n ih =>
    cases n' with
    | zero => exact absurd hn' (Nat.not_lt_zero _)
    | succ n' =>
      rcases hs.cases with ⟨t, u, u', ht, ht', hne, hu⟩ | ⟨t, t', hp, ht, -⟩
      · cases hop : isPrefixOp t with
        | true =>
          have hsize := size_next_lt ht hne
          have hsize' := size_next_lt ht' hne
          rw [prefixes_goes_on ht hop, prefixes_goes_on ht' hop]
          exact ih n' (t :: taken) (by omega) (by omega) hu
        | false =>
          have hp := (peek_of_next ht).2
          have hp' := (peek_of_next ht').2
          rw [prefixes_stops hp hop, prefixes_stops hp' hop]
          exact .inl ⟨rfl, hs.of_peek hp hp'⟩
      · have hop : isPrefixOp t = false := by simp [isPrefixOp, ht]
        exact .inr ⟨taken, t, prefixes_stops hp hop n taken, peek_peek hp, ht⟩

/-- The operators behind an operand, and what stands between them, are taken from both streams
    alike. The token behind the expression ends the loop as the end of the input does. -/
theorem climb_repeats {operand operand' : Parser Expr} {tighter tighter' : Expr → Int → Parser Expr}
    {min : Int}
    (ho : ∀ {s s'}, Outlasts f v v' s s' →
      Repeats f v v' (Expr.relocate f) (operand s) (operand' s'))
    (ht : ∀ left p {s s'}, Outlasts f v v' s s' →
      Repeats f v v' (Expr.relocate f) (tighter left p s) (tighter' (left.relocate f) p s'))
    (hos : Shrinks operand) (hos' : Shrinks operand') (hts : ∀ left p, Shrinks (tighter left p))
    (hts' : ∀ left p, Shrinks (tighter' left p)) (n n' : Nat) (left : Expr) (hn : s.size < n)
    (hn' : s'.size < n') (hs : Outlasts f v v' s s') :
    Repeats f v v' (Expr.relocate f) (climb operand tighter min n left s)
      (climb operand' tighter' min n' (left.relocate f) s') := by
  induction n generalizing n' left s s' with
  | zero => exact absurd hn (Nat.not_lt_zero _)
  | succ n ih =>
    cases n' with
    | zero => exact absurd hn' (Nat.not_lt_zero _)
    | succ n' =>
      rcases hs.cases with ⟨t, u, u', hnext, hnext', hne, hu⟩ | ⟨t, t', hp, htk, hp', htk'⟩
      · by_cases hstop : t.kind.precedence = 0 ∨ (t.kind.precedence : Int) < min
        · have hp := (peek_of_next hnext).2
          have hp' := (peek_of_next hnext').2
          rw [climb_stops hp hstop, climb_stops hp' hstop]
          exact ⟨rfl, hs.of_peek hp hp'⟩
        · have hsize := size_next_lt hnext hne
          have hsize' := size_next_lt hnext' hne
          rw [climb_goes_on hnext hstop, climb_goes_on hnext' hstop]
          refine (ho hu).bind fun first w w' hw hw' hrem => ?_
          refine (ht first _ hrem).bind fun right z z' hz hz' hrem => ?_
          have hle := Nat.le_trans (hts _ _ _ _ _ hz) (hos _ _ _ hw)
          have hle' := Nat.le_trans (hts' _ _ _ _ _ hz') (hos' _ _ _ hw')
          exact ih n' (.binary t.position t.value left right) (by omega) (by omega) hrem
      · have hstop : t.kind.precedence = 0 := by
          rw [htk]
          rfl
        rw [climb_stops hp (.inl hstop), climb_stops hp' (.inl htk')]
        exact ⟨rfl, hs.of_peek hp hp'⟩

end Repeats

/-! ### Readers -/

/-- What the readers with a budget of `depth` read is read with every budget that is as large. -/
structure RepeatsAt (f : Position → Position) (v v' : TokenStream) (depth : Nat) : Prop where
  expression : ∀ {depth'} {s s'}, depth ≤ depth' → Outlasts f v v' s s' →
    Repeats f v v' (Expr.relocate f) (expression depth s) (expression depth' s')
  binary : ∀ {depth'} left min {s s'}, depth ≤ depth' → Outlasts f v v' s s' →
    Repeats f v v' (Expr.relocate f) (binary depth left min s)
      (binary depth' (left.relocate f) min s')
  unary : ∀ {depth'} {s s'}, depth ≤ depth' → Outlasts f v v' s s' →
    Repeats f v v' (Expr.relocate f) (unary depth s) (unary depth' s')
  primary : ∀ {depth'} {s s'}, depth ≤ depth' → Outlasts f v v' s s' →
    Repeats f v v' (Expr.relocate f) (primary depth s) (primary depth' s')
  conditional : ∀ {depth'} {s s'}, depth ≤ depth' → Outlasts f v v' s s' →
    Repeats f v v' (Expr.relocate f) (conditional depth s) (conditional depth' s')

theorem relocate_applyPrefixes (ops : List Token) (e : Expr) :
    (applyPrefixes ops e).relocate f =
      applyPrefixes (ops.map (Token.relocate f)) (e.relocate f) := by
  induction ops generalizing e with
  | nil => rfl
  | cons t ops ih => exact ih _

section Readers

variable {depth depth' : Nat}

theorem unary_repeats (h : RepeatsAt f v v' depth) (hd : depth ≤ depth')
    (hs : Outlasts f v v' s s') :
    Repeats f v v' (Expr.relocate f) (unary (depth + 1) s) (unary (depth' + 1) s') := by
  rcases prefixes_repeats (s.size + 1) (s'.size + 1) [] (Nat.lt_succ_self _) (Nat.lt_succ_self _) hs
    with hops | ⟨ops, t, hops, hp, ht⟩
  · refine hops.bind fun ops u u' _ _ hu => (h.primary hd hu).bind fun e w w' _ _ hw => ?_
    rw [← relocate_applyPrefixes]
    exact repeats_pure _ hw
  · -- nothing stands behind the operators, so there is no operand
    obtain ⟨e, w, he⟩ := primary_of_endOfInput hp ht depth
    have hfails : unary (depth + 1) s = .error e w := by
      change (prefixes (s.size + 1) [] >>= _) s = _
      rw [bind_of_ok hops, bind_of_error he]
    exact repeats_of_error hfails _

theorem primary_repeats (h : RepeatsAt f v v' depth) (hd : depth ≤ depth')
    (hs : Outlasts f v v' s s') :
    Repeats f v v' (Expr.relocate f) (primary (depth + 1) s) (primary (depth' + 1) s') := by
  rcases hs.cases with ⟨t, u, u', hn, hn', -, hu⟩ | ⟨t, t', hp, ht, -⟩
  · have hp := (peek_of_next hn).2
    have hp' := (peek_of_next hn').2
    have hnext := next_ok ((next_eq_of_peek hp).trans hn)
    have hnext' := next_ok ((next_eq_of_peek hp').trans hn')
    have hkept : (t.relocate f).kind = t.kind := rfl
    rw [primary, primary, bind_of_ok (peek_ok hp), bind_of_ok (peek_ok hp'), hkept]
    cases t.kind with
    | integer | identifier =>
      dsimp only
      rw [bind_of_ok hnext, bind_of_ok hnext']
      exact repeats_pure _ hu
    | symbol sym =>
      cases sym
      case leftParen =>
        dsimp only
        rw [bind_of_ok hnext, bind_of_ok hnext']
        refine (h.expression hd hu).bind fun inner w w' _ _ hw => ?_
        exact (expect_repeats (by decide) _ hw).bind fun _ _ _ _ _ hz => repeats_pure _ hz
      all_goals exact repeats_of_error rfl _
    | keyword word =>
      cases word
      case ifWord => exact h.conditional hd (hs.of_peek hp hp')
      all_goals exact repeats_of_error rfl _
    | endOfInput => exact repeats_of_error rfl _
  · obtain ⟨e, w, he⟩ := primary_of_endOfInput hp ht (depth + 1)
    exact repeats_of_error he _

theorem conditional_repeats (h : RepeatsAt f v v' depth) (hd : depth ≤ depth')
    (hs : Outlasts f v v' s s') :
    Repeats f v v' (Expr.relocate f) (conditional (depth + 1) s) (conditional (depth' + 1) s') := by
  refine (expect_repeats (by decide) _ hs).bind fun i _ _ _ _ hs => ?_
  refine (h.expression hd hs).bind fun c _ _ _ _ hs => ?_
  refine (expect_repeats (by decide) _ hs).bind fun _ _ _ _ _ hs => ?_
  refine (h.expression hd hs).bind fun x _ _ _ _ hs => ?_
  refine (expect_repeats (by decide) _ hs).bind fun _ _ _ _ _ hs => ?_
  refine (h.expression hd hs).bind fun y _ _ _ _ hs => ?_
  refine (expect_repeats (by decide) _ hs).bind fun _ _ _ _ _ hs => ?_
  exact repeats_pure (Expr.conditional i.position c x y) hs

theorem binary_repeats (h : RepeatsAt f v v' depth) (hd : depth ≤ depth') (left : Expr) (min : Int)
    (hs : Outlasts f v v' s s') :
    Repeats f v v' (Expr.relocate f) (binary (depth + 1) left min s)
      (binary (depth' + 1) (left.relocate f) min s') :=
  climb_repeats (h.unary hd) (fun left p _ _ => h.binary left p hd) (shrinks_unary depth)
    (shrinks_unary depth') (shrinks_binary depth) (shrinks_binary depth') (s.size + 1)
    (s'.size + 1) left (Nat.lt_succ_self _) (Nat.lt_succ_self _) hs

/-- Whatever was read with some budget is read in a stream that outlasts the first, with every budget
    that is as large. -/
theorem repeatsAt (f : Position → Position) (v v' : TokenStream) (depth : Nat) :
    RepeatsAt f v v' depth := by
  induction depth with
  | zero =>
    exact ⟨fun _ _ => trivial, fun _ _ _ _ _ _ => trivial, fun _ _ => trivial, fun _ _ => trivial,
      fun _ _ => trivial⟩
  | succ depth ih =>
    constructor
    case expression =>
      rintro (_ | depth') s s' hd hs
      · exact absurd hd (Nat.not_succ_le_zero _)
      · have hd := Nat.le_of_succ_le_succ hd
        exact (ih.unary hd hs).bind fun left _ _ _ _ hu => ih.binary left 1 hd hu
    case binary =>
      rintro (_ | depth') left min s s' hd hs
      · exact absurd hd (Nat.not_succ_le_zero _)
      · exact binary_repeats ih (Nat.le_of_succ_le_succ hd) left min hs
    case unary =>
      rintro (_ | depth') s s' hd hs
      · exact absurd hd (Nat.not_succ_le_zero _)
      · exact unary_repeats ih (Nat.le_of_succ_le_succ hd) hs
    case primary =>
      rintro (_ | depth') s s' hd hs
      · exact absurd hd (Nat.not_succ_le_zero _)
      · exact primary_repeats ih (Nat.le_of_succ_le_succ hd) hs
    case conditional =>
      rintro (_ | depth') s s' hd hs
      · exact absurd hd (Nat.not_succ_le_zero _)
      · exact conditional_repeats ih (Nat.le_of_succ_le_succ hd) hs

end Readers

/-- A reader of expressions leaves the token that it stopped at where it is seen again. -/
theorem expression_peek {depth : Nat} {e : Expr} (h : expression depth s = .ok e u) :
    ∃ t, TokenStream.peek u = .ok t u := by
  obtain ⟨ts, t, hs, -⟩ := ((readsAt depth).expression s .input []).of_ok h
  exact ⟨t, hs.peek_eq⟩

/-- Reading a whole text is reading an expression in front of the end of the input. -/
theorem expression_of_complete {depth : Nat} {e : Expr} (h : complete depth s = .ok e u) :
    ∃ d t, depth = d + 1 ∧ expression d s = .ok e u ∧ TokenStream.peek u = .ok t u ∧
      t.kind = .endOfInput := by
  cases depth with
  | zero => cases h
  | succ d =>
    rw [complete] at h
    cases hx : expression d s with
    | error err w =>
      rw [bind_of_error hx] at h
      cases h
    | ok e' w =>
      obtain ⟨t, hp⟩ := expression_peek hx
      rw [bind_of_ok hx, bind_of_ok (peek_ok hp)] at h
      by_cases hk : t.kind = .endOfInput
      · rw [if_pos hk] at h
        cases h
        exact ⟨d, t, rfl, hx, hp, hk⟩
      · rw [if_neg hk] at h
        cases h

/-- An expression that fills a text is read in front of any token that binds nothing, at any place
    and with any budget that was enough for the text. Behind it that token lies in the slot. -/
theorem expression_of_parseWithin {depth depth' : Nat} {text : String} {ts : List Token}
    {last : Token} {e : Expr} (h : parseWithin depth text = .ok e)
    (htext : tokensOf text = .ok (ts ++ [last])) (hd : depth ≤ depth' + 1)
    (hs : Sees s (ts.map (Token.relocate f)) (.ok t v)) (ht : t.kind.precedence = 0) :
    expression depth' s = .ok (e.relocate f) v := by
  unfold parseWithin at h
  split at h
  · rename_i e₁ u hc
    obtain rfl : e₁ = e := Except.ok.inj h
    obtain ⟨d, t₁, rfl, hx, hend, hk⟩ := expression_of_complete hc
    obtain ⟨us, t₂, hus, -⟩ := ((readsAt d).expression _ .input []).of_ok hx
    obtain ⟨rfl, -⟩ := peek_unique hend hus.peek_eq
    -- The tokens that were read are those of the text without the end of the input.
    obtain ⟨rest, htokens, hrest⟩ := hus.run_of_ok
    obtain ⟨rfl, -⟩ := hrest hk
    have hsame := (tokensOf_eq_ok_iff.mp htext).1.symm.trans htokens
    obtain ⟨rfl, -⟩ := List.append_inj' hsame rfl
    have houtlasts : Outlasts f u v (ofText text) s := ⟨ts, t₁, t, hus, hk, hs, ht⟩
    have hrepeats := (repeatsAt f u v d).expression (Nat.le_of_succ_le_succ hd) houtlasts
    rw [hx] at hrepeats
    cases hx' : expression depth' s with
    | error err w =>
      rw [hx'] at hrepeats
      exact hrepeats.elim
    | ok e' w =>
      rw [hx'] at hrepeats
      obtain ⟨rfl, hrem⟩ := hrepeats
      obtain ⟨t', hp'⟩ := expression_peek hx'
      rcases hrem.cases with ⟨t₂, _, _, hn, -, hne, -⟩ | ⟨_, t₂, -, -, hp, -⟩
      · obtain ⟨rfl, -⟩ := next_unique hn (next_of_peek hend).2
        exact absurd hk hne
      · obtain ⟨-, rfl⟩ := peek_unique hp hp'
        rfl
  · cases h

end Parser
end ExprLang

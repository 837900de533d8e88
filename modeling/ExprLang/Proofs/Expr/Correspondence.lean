import ExprLang.Proofs.Expr.Reading
import ExprLang.Proofs.Expr.Relocation
import ExprLang.Proofs.Token.Remainder

/-! Readings that run in parallel.

    If what is still to come out of two streams is the same once it is relocated (`Ahead`), then a
    reader of expressions does the same on both: it gives trees that are the same once they are
    relocated, or it fails in the same way, and the same is still to come again (`ParallelAt`). No
    reader decides anything by a position, or by whether its first token lies in the slot already.
    None of them ever finds the slot taken when it puts a token back. The loops go round as often as
    the size of the stream allows, and streams of which the same is to come need not be of one size;
    so two runs of a loop are compared whatever bounds they are given (`matches_prefixes`,
    `matches_climb`). -/

namespace ExprLang

/-- A failure to read an expression, at another place. -/
def ParseError.relocate (f : Position → Position) : ParseError → ParseError
  | .unexpected t production => .unexpected (t.relocate f) production
  | e => e

theorem ParseError.relocate_id (e : ParseError) : e.relocate id = e := by cases e <;> rfl

/-- Two tokens are the same but for their places. -/
def Token.Like (f : Position → Position) (t t' : Token) : Prop := t.relocate f = t'.relocate f

/-- Two trees are the same but for their places. -/
def Expr.Like (f : Position → Position) (e e' : Expr) : Prop := e.relocate f = e'.relocate f

section Like

variable {f : Position → Position} {t t' : Token}

theorem Token.Like.kind_eq (h : t.Like f t') : t'.kind = t.kind := (congrArg Token.kind h).symm

theorem Token.Like.value_eq (h : t.Like f t') : t'.value = t.value := (congrArg Token.value h).symm

theorem Token.Like.position_eq (h : t.Like f t') : f t'.position = f t.position :=
  (congrArg Token.position h).symm

end Like

namespace Parser

open TokenStream

variable {f : Position → Position}

/-- What is still to come out of two streams is the same but for the places. -/
def Ahead (f : Position → Position) (s s' : TokenStream) : Prop :=
  s.remaining.map (Except.map (Token.relocate f)) = s'.remaining.map (Except.map (Token.relocate f))

/-- Two ends of an action are the same but for the places: results that are `like` each other, or
    the same failure. The slot is never found taken. -/
def Matches {α : Type} (f : Position → Position) (like : α → α → Prop) :
    EStateM.Result ParseError TokenStream α → EStateM.Result ParseError TokenStream α → Prop
  | .ok a s, .ok a' s' => like a a' ∧ Ahead f s s'
  | .error e s, .error e' s' =>
    e.relocate f = e'.relocate f ∧ (∀ o, e ≠ .slotOccupied o) ∧ Ahead f s s'
  | _, _ => False

/-- Two actions end in the same way on streams out of which the same is still to come. -/
def Parallel {α : Type} (f : Position → Position) (like : α → α → Prop) (x x' : Parser α) : Prop :=
  ∀ s s', Ahead f s s' → Matches f like (x s) (x' s')

section Parallel

variable {α β : Type} {like : α → α → Prop} {like' : β → β → Prop} {x x' : Parser α}
  {g g' : α → Parser β} {s s' : TokenStream}

theorem Matches.bind (h : Matches f like (x s) (x' s'))
    (hg : ∀ a a' u u', x s = .ok a u → x' s' = .ok a' u' → like a a' → Ahead f u u' →
      Matches f like' (g a u) (g' a' u')) : Matches f like' ((x >>= g) s) ((x' >>= g') s') := by
  change Matches f like' (EStateM.bind x g s) (EStateM.bind x' g' s')
  unfold EStateM.bind
  cases hx : x s with
  | ok a u =>
    cases hx' : x' s' with
    | ok a' u' =>
      rw [hx, hx'] at h
      exact hg a a' u u' hx hx' h.1 h.2
    | error e' u' =>
      rw [hx, hx'] at h
      exact h.elim
  | error e u =>
    cases hx' : x' s' with
    | ok a' u' =>
      rw [hx, hx'] at h
      exact h.elim
    | error e' u' =>
      rw [hx, hx'] at h
      exact h

theorem Parallel.bind (h : Parallel f like x x')
    (hg : ∀ a a', like a a' → Parallel f like' (g a) (g' a')) :
    Parallel f like' (x >>= g) (x' >>= g') := fun s s' hs =>
  (h s s' hs).bind fun a a' u u' _ _ ha hu => hg a a' ha u u' hu

theorem parallel_pure {a a' : α} (h : like a a') : Parallel f like (pure a) (pure a') :=
  fun _ _ hs => ⟨h, hs⟩

theorem parallel_throw {e e' : ParseError} (h : e.relocate f = e'.relocate f)
    (he : ∀ o, e ≠ .slotOccupied o) : Parallel f like (throw e) (throw e') :=
  fun _ _ hs => ⟨h, he, hs⟩

theorem parallel_tooDeep : Parallel f like (throw .tooDeep) (throw .tooDeep) :=
  parallel_throw rfl (by simp)

theorem parallel_unexpected {t t' : Token} (h : t.Like f t') (production : Production) :
    Parallel f like (throw (.unexpected t production)) (throw (.unexpected t' production)) :=
  parallel_throw (congrArg (ParseError.unexpected · production) h) (by simp)

end Parallel

/-! ### Single tokens -/

section Tokens

variable {β : Type} {like : β → β → Prop} {g g' : Token → Parser β} {s s' : TokenStream}

theorem Ahead.head (h : Ahead f s s') : s.remaining.head.map (Token.relocate f) =
    s'.remaining.head.map (Token.relocate f) := congrArg Stream'.head h

theorem Ahead.tail (h : Ahead f s s') :
    s.remaining.tail.map (Except.map (Token.relocate f)) =
      s'.remaining.tail.map (Except.map (Token.relocate f)) := congrArg Stream'.tail h

/-- What comes first is taken from both streams, which both have an empty slot then. -/
theorem matches_next (h : Ahead f s s')
    (hg : ∀ t t' c c', TokenStream.next s = .ok t ⟨c, none⟩ →
      TokenStream.next s' = .ok t' ⟨c', none⟩ → t.Like f t' → Ahead f ⟨c, none⟩ ⟨c', none⟩ →
      Matches f like (g t ⟨c, none⟩) (g' t' ⟨c', none⟩)) :
    Matches f like ((next >>= g) s) ((next >>= g') s') := by
  obtain ⟨hhead, htail, hslot⟩ := next_remaining s
  obtain ⟨hhead', htail', hslot'⟩ := next_remaining s'
  have hsame := h.head
  rw [← hhead, ← hhead'] at hsame
  have hrest : Ahead f (stateOf (TokenStream.next s)) (stateOf (TokenStream.next s')) := by
    rw [Ahead, htail, htail']
    exact h.tail
  change Matches f like (EStateM.bind _ g s) (EStateM.bind _ g' s')
  unfold EStateM.bind next EStateM.adaptExcept
  cases hn : TokenStream.next s with
  | ok t u =>
    cases hn' : TokenStream.next s' with
    | ok t' u' =>
      rw [hn] at hsame hrest hslot
      rw [hn'] at hsame hrest hslot'
      obtain ⟨c, p⟩ := u
      obtain ⟨c', p'⟩ := u'
      obtain rfl : p = none := hslot
      obtain rfl : p' = none := hslot'
      exact hg t t' c c' hn hn' (Except.ok.inj hsame) hrest
    | error e' u' =>
      rw [hn, hn'] at hsame
      cases hsame
  | error e u =>
    cases hn' : TokenStream.next s' with
    | ok t' u' =>
      rw [hn, hn'] at hsame
      cases hsame
    | error e' u' =>
      rw [hn, hn'] at hsame hrest
      obtain rfl : e = e' := Except.error.inj hsame
      exact ⟨rfl, by simp, hrest⟩

theorem parallel_next : Parallel f (Token.Like f) next next := by
  intro s s' h
  have hpure : next = (next >>= pure : Parser Token) := (bind_pure next).symm
  rw [hpure]
  exact matches_next h fun t t' c c' _ _ ht hc => ⟨ht, hc⟩

/-- What comes first is seen in both streams. -/
theorem matches_peek (h : Ahead f s s')
    (hg : ∀ t t' u u', TokenStream.peek s = .ok t u → TokenStream.peek s' = .ok t' u' →
      t.Like f t' → Ahead f u u' → Matches f like (g t u) (g' t' u')) :
    Matches f like ((peek >>= g) s) ((peek >>= g') s') := by
  obtain ⟨hhead, hleft⟩ := peek_remaining s
  obtain ⟨hhead', hleft'⟩ := peek_remaining s'
  have hsame := h.head
  rw [← hhead, ← hhead'] at hsame
  change Matches f like (EStateM.bind _ g s) (EStateM.bind _ g' s')
  unfold EStateM.bind peek EStateM.adaptExcept
  cases hp : TokenStream.peek s with
  | ok t u =>
    cases hp' : TokenStream.peek s' with
    | ok t' u' =>
      rw [hp] at hhead hleft hsame
      rw [hp'] at hhead' hleft' hsame
      rw [← hhead] at hleft
      rw [← hhead'] at hleft'
      have hu : u.remaining = s.remaining := hleft
      have hu' : u'.remaining = s'.remaining := hleft'
      refine hg t t' u u' hp hp' (Except.ok.inj hsame) ?_
      rw [Ahead, hu, hu']
      exact h
    | error e' u' =>
      rw [hp, hp'] at hsame
      cases hsame
  | error e u =>
    cases hp' : TokenStream.peek s' with
    | ok t' u' =>
      rw [hp, hp'] at hsame
      cases hsame
    | error e' u' =>
      rw [hp] at hhead hleft hsame
      rw [hp'] at hhead' hleft' hsame
      rw [← hhead] at hleft
      rw [← hhead'] at hleft'
      have hu : u.remaining = s.remaining.tail := hleft
      have hu' : u'.remaining = s'.remaining.tail := hleft'
      obtain rfl : e = e' := Except.error.inj hsame
      refine ⟨rfl, by simp, ?_⟩
      rw [Ahead, hu, hu']
      exact h.tail

theorem parallel_peek : Parallel f (Token.Like f) peek peek := by
  intro s s' h
  have hpure : peek = (peek >>= pure : Parser Token) := (bind_pure peek).symm
  rw [hpure]
  exact matches_peek h fun t t' u u' _ _ ht hu => ⟨ht, hu⟩

theorem parallel_expect (kind : TokenKind) (production : Production) :
    Parallel f (Token.Like f) (expect kind production) (expect kind production) := by
  refine parallel_peek.bind fun t t' ht => ?_
  rw [ht.kind_eq]
  by_cases hk : t.kind = kind
  · rw [if_pos hk, if_pos hk]
    exact parallel_next
  · rw [if_neg hk, if_neg hk]
    exact parallel_unexpected ht production

end Tokens

/-! ### Loops -/

theorem isPrefixOp_eq {t t' : Token} (h : t.Like f t') : isPrefixOp t' = isPrefixOp t := by
  rw [isPrefixOp, isPrefixOp, h.kind_eq]

theorem ne_endOfInput_of_isPrefixOp {t : Token} (h : isPrefixOp t = true) :
    t.kind ≠ .endOfInput := by
  rcases isPrefixOp_iff.mp h with hk | hk <;> rw [hk] <;> decide

/-- Operators in front of an operand are taken from both streams alike. -/
theorem matches_prefixes (n n' : Nat) (taken taken' : List Token) (s s' : TokenStream)
    (hn : s.size < n) (hn' : s'.size < n') (htaken : List.Forall₂ (Token.Like f) taken taken')
    (h : Ahead f s s') :
    Matches f (List.Forall₂ (Token.Like f)) (prefixes n taken s) (prefixes n' taken' s') := by
  induction n generalizing n' taken taken' s s' with
  | zero => exact absurd hn (Nat.not_lt_zero _)
  | succ n ih =>
    cases n' with
    | zero => exact absurd hn' (Nat.not_lt_zero _)
    | succ n' =>
      refine matches_peek h fun t t' u u' hp hp' ht hu => ?_
      rw [isPrefixOp_eq ht]
      by_cases hop : isPrefixOp t = true
      · rw [if_pos hop, if_pos hop]
        refine matches_next hu fun v v' c c' hv hv' _ hc => ?_
        rw [next_eq_of_peek hp] at hv
        rw [next_eq_of_peek hp'] at hv'
        obtain rfl : t = v := by
          rw [(next_of_peek hp).2] at hv
          injection hv
        obtain rfl : t' = v' := by
          rw [(next_of_peek hp').2] at hv'
          injection hv'
        have hsize := size_next_lt hv (ne_endOfInput_of_isPrefixOp hop)
        have hsize' := size_next_lt hv' (ne_endOfInput_of_isPrefixOp (isPrefixOp_eq ht ▸ hop))
        exact ih n' (t :: taken) (t' :: taken') ⟨c, none⟩ ⟨c', none⟩ (by omega) (by omega)
          (.cons ht htaken) hc
      · rw [if_neg hop, if_neg hop]
        exact parallel_pure htaken u u' hu

theorem like_applyPrefixes {ops ops' : List Token} (hops : List.Forall₂ (Token.Like f) ops ops')
    {e e' : Expr} (he : e.Like f e') : (applyPrefixes ops e).Like f (applyPrefixes ops' e') := by
  induction hops generalizing e e' with
  | nil => exact he
  | cons ht _ ih =>
    refine ih ?_
    rw [Expr.Like, Expr.relocate, Expr.relocate, ht.position_eq, ht.value_eq, he]

/-- An action that leaves a stream no larger than it was. -/
def Shrinks (x : Parser Expr) : Prop := ∀ s e s', x s = .ok e s' → s'.size ≤ s.size

theorem shrinks_unary (depth : Nat) : Shrinks (unary depth) := by
  intro s e s' h
  obtain ⟨ts, hts, -⟩ := exists_takes_of_unary h
  exact Nat.le_trans (Nat.le_add_right _ _) hts.size_le

theorem shrinks_binary (depth : Nat) (left : Expr) (min : Int) :
    Shrinks (binary depth left min) := by
  intro s e s' h
  obtain ⟨ks, t, hs, -⟩ := ((readsAt depth).binary left min s .input []).of_ok h
  exact Nat.le_trans (Nat.le_add_right _ _) hs.size_le

/-- The operators behind an operand are taken from both streams alike, and so is what stands between
    them. The token that ends the run was taken itself, so there is room for it in both slots. -/
theorem matches_climb {operand : Parser Expr} {tighter : Expr → Int → Parser Expr} {min : Int}
    (ho : Parallel f (Expr.Like f) operand operand)
    (ht : ∀ left left' p, left.Like f left' →
      Parallel f (Expr.Like f) (tighter left p) (tighter left' p))
    (hos : Shrinks operand) (hts : ∀ left p, Shrinks (tighter left p)) (n n' : Nat)
    (left left' : Expr) (s s' : TokenStream) (hn : s.size < n) (hn' : s'.size < n')
    (hleft : left.Like f left') (h : Ahead f s s') :
    Matches f (Expr.Like f) (climb operand tighter min n left s)
      (climb operand tighter min n' left' s') := by
  induction n generalizing n' left left' s s' with
  | zero => exact absurd hn (Nat.not_lt_zero _)
  | succ n ih =>
    cases n' with
    | zero => exact absurd hn' (Nat.not_lt_zero _)
    | succ n' =>
      refine matches_next h fun t t' c c' hs hs' htoken hc => ?_
      rw [htoken.kind_eq]
      by_cases hstop : t.kind.precedence = 0 ∨ (t.kind.precedence : Int) < min
      · rw [if_pos hstop, if_pos hstop]
        have hback : Ahead f ⟨c, some t⟩ ⟨c', some t'⟩ := by
          have hfirst : Except.map (Token.relocate f) (.ok t : Except LexError Token) =
              Except.map (Token.relocate f) (.ok t') := congrArg Except.ok htoken
          rw [Ahead, remaining_held, remaining_held, Stream'.map_cons, Stream'.map_cons, hfirst]
          exact congrArg _ hc
        exact ⟨hleft, hback⟩
      · rw [if_neg hstop, if_neg hstop]
        have hne : t.kind ≠ .endOfInput := fun hk => hstop (.inl (by rw [hk]; rfl))
        have hsize := size_next_lt hs hne
        have hsize' := size_next_lt hs' (htoken.kind_eq ▸ hne)
        refine (ho _ _ hc).bind fun first first' u u' hu hu' hfirst hrem => ?_
        refine (ht first first' _ hfirst _ _ hrem).bind fun right right' v v' hv hv' hright hrem => ?_
        have hle := Nat.le_trans (hts _ _ _ _ _ hv) (hos _ _ _ hu)
        have hle' := Nat.le_trans (hts _ _ _ _ _ hv') (hos _ _ _ hu')
        refine ih n' _ _ v v' (by omega) (by omega) ?_ hrem
        rw [Expr.Like, Expr.relocate, Expr.relocate, htoken.position_eq, htoken.value_eq, hleft,
          hright]

/-! ### Readers -/

/-- The readers with a budget of `depth` do the same on two streams. -/
structure ParallelAt (f : Position → Position) (depth : Nat) : Prop where
  expression : Parallel f (Expr.Like f) (expression depth) (expression depth)
  binary : ∀ left left' min, left.Like f left' →
    Parallel f (Expr.Like f) (binary depth left min) (binary depth left' min)
  unary : Parallel f (Expr.Like f) (unary depth) (unary depth)
  primary : Parallel f (Expr.Like f) (primary depth) (primary depth)
  conditional : Parallel f (Expr.Like f) (conditional depth) (conditional depth)

section Readers

variable {depth : Nat}

theorem parallel_unary (h : ParallelAt f depth) :
    Parallel f (Expr.Like f) (unary (depth + 1)) (unary (depth + 1)) := by
  intro s s' hs
  have hloop := matches_prefixes (s.size + 1) (s'.size + 1) [] [] s s' (Nat.lt_succ_self _)
    (Nat.lt_succ_self _) .nil hs
  refine hloop.bind fun ops ops' u u' _ _ hops hu => ?_
  exact (h.primary.bind fun e e' he => parallel_pure (like_applyPrefixes hops he)) u u' hu

theorem parallel_binary (h : ParallelAt f depth) (left left' : Expr) (min : Int)
    (hleft : left.Like f left') :
    Parallel f (Expr.Like f) (binary (depth + 1) left min) (binary (depth + 1) left' min) := by
  intro s s' hs
  exact matches_climb h.unary h.binary (shrinks_unary depth) (shrinks_binary depth) (s.size + 1)
    (s'.size + 1) left left' s s' (Nat.lt_succ_self _) (Nat.lt_succ_self _) hleft hs

theorem parallel_primary (h : ParallelAt f depth) :
    Parallel f (Expr.Like f) (primary (depth + 1)) (primary (depth + 1)) := by
  refine parallel_peek.bind fun t t' ht => ?_
  rw [ht.kind_eq]
  split
  · refine parallel_next.bind fun _ _ _ => parallel_pure ?_
    rw [Expr.Like, Expr.relocate, Expr.relocate, ht.position_eq, ht.value_eq]
  · refine parallel_next.bind fun _ _ _ => parallel_pure ?_
    rw [Expr.Like, Expr.relocate, Expr.relocate, ht.position_eq, ht.value_eq]
  · refine parallel_next.bind fun _ _ _ => h.expression.bind fun inner inner' hinner => ?_
    exact (parallel_expect _ _).bind fun _ _ _ => parallel_pure hinner
  · exact h.conditional
  · exact parallel_unexpected ht .primary

theorem parallel_conditional (h : ParallelAt f depth) :
    Parallel f (Expr.Like f) (conditional (depth + 1)) (conditional (depth + 1)) := by
  refine (parallel_expect _ _).bind fun i i' hi => h.expression.bind fun c c' hc => ?_
  refine (parallel_expect _ _).bind fun _ _ _ => h.expression.bind fun x x' hx => ?_
  refine (parallel_expect _ _).bind fun _ _ _ => h.expression.bind fun y y' hy => ?_
  refine (parallel_expect _ _).bind fun _ _ _ => parallel_pure ?_
  rw [Expr.Like, Expr.relocate, Expr.relocate, hi.position_eq, hc, hx, hy]

theorem parallelAt (f : Position → Position) (depth : Nat) : ParallelAt f depth := by
  induction depth with
  | zero =>
    exact ⟨parallel_tooDeep, fun _ _ _ _ => parallel_tooDeep, parallel_tooDeep, parallel_tooDeep,
      parallel_tooDeep⟩
  | succ depth ih =>
    exact {
      expression := ih.unary.bind fun left left' hleft => ih.binary left left' 1 hleft
      binary := parallel_binary ih
      unary := parallel_unary ih
      primary := parallel_primary ih
      conditional := parallel_conditional ih }

theorem parallel_complete (f : Position → Position) (depth : Nat) :
    Parallel f (Expr.Like f) (complete depth) (complete depth) := by
  cases depth with
  | zero => exact parallel_tooDeep
  | succ depth =>
    refine (parallelAt f depth).expression.bind fun e e' he => parallel_peek.bind fun t t' ht => ?_
    rw [ht.kind_eq]
    by_cases hk : t.kind = .endOfInput
    · rw [if_pos hk, if_pos hk]
      exact parallel_pure he
    · rw [if_neg hk, if_neg hk]
      exact parallel_unexpected ht .endOfInput

end Readers
end Parser
end ExprLang

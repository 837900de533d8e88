import ExprLang.Proofs.Expr.Nesting
import ExprLang.Proofs.Expr.Unambiguity

/-! Climbing precedences.

    Reading on from an operand hands operators back and forth between calls: a call stops in front
    of an operator that is too loose for it, puts it back, and the call around it takes it. From
    outside nothing of this is seen. A run of links is taken from the stream (`Run`), each of them
    an operator that is tight enough and what the reader of operands takes behind it; the run goes
    as far as there are such links (`Run.isPrefix`), and its tree depends on nothing but the links
    (`Grouped`). -/

namespace ExprLang

open Grammar

namespace TokenStream

variable {s s₁ s₂ : TokenStream} {ts us : List Token}

/-- Tokens that are taken behind others are taken from where these lead. -/
theorem Takes.rest (h : Takes s ts s₁) (h' : Takes s (ts ++ us) s₂) : Takes s₁ us s₂ := by
  induction h with
  | nil => exact h'
  | cons hn _ _ ih =>
    cases h' with
    | cons hn' _ h' =>
      obtain ⟨-, rfl⟩ := next_unique hn hn'
      exact ih h'

/-- A stream that was not made smaller gave no token. -/
theorem Takes.eq_nil (h : Takes s ts s) : ts = [] := by
  have := h.size_le
  exact List.eq_nil_of_length_eq_zero (by omega)

/-- Between two streams lie the same tokens. -/
theorem Takes.tokens_unique (h : Takes s ts s₁) (h' : Takes s us s₁) : ts = us := by
  rcases h.prefix_or h' with ⟨vs, rfl⟩ | ⟨t, vs, s', rfl, -⟩
  · simpa using (h'.rest h).eq_nil
  · simpa using (h.rest h').eq_nil

end TokenStream

namespace Parser

open TokenStream

/-- A run of links that a stream begins with: each is an operator that binds at least as tightly as
    `min`, and an operand that is read behind it. -/
inductive Run (min : Int) : TokenStream → List Link → TokenStream → Prop
  | nil (s : TokenStream) : Run min s [] s
  | cons {depth : Nat} {s s₁ s₂ s' : TokenStream} {t : Token} {us : List Token} {x : Expr}
    {ks : List Link} :
    TokenStream.next s = .ok t s₁ → max min 1 ≤ (t.kind.precedence : Int) →
    unary depth s₁ = .ok x s₂ → Takes s₁ us s₂ → Run min s₂ ks s' →
    Run min s (⟨t, us, x⟩ :: ks) s'

/-- A run that goes on up to a token that binds less tightly than `min`, or not at all. This token
    lies in the slot. -/
def RunsUpTo (min : Int) (s : TokenStream) (ks : List Link) (s' : TokenStream) : Prop :=
  ∃ s₁ t, Run min s ks s₁ ∧ TokenStream.peek s₁ = .ok t s' ∧ (t.kind.precedence : Int) < max min 1

section Run

variable {depth : Nat} {min min' : Int} {s s₁ s₂ s' : TokenStream} {ks ls : List Link} {x : Expr}

theorem derives_of_unary {us : List Token} (h : unary depth s = .ok x s') (hus : Takes s us s') :
    Derives .operand us x := by
  obtain ⟨vs, hvs, hx⟩ := exists_takes_of_unary h
  exact hus.tokens_unique hvs ▸ hx

theorem ne_endOfInput_of_le {t : Token} (h : max min 1 ≤ (t.kind.precedence : Int)) :
    t.kind ≠ .endOfInput := by
  intro ht
  rw [ht, show TokenKind.precedence .endOfInput = 0 from rfl] at h
  omega

/-- A run takes the tokens of its links. -/
theorem Run.takes (h : Run min s ks s') : Takes s (chainTokens ks) s' := by
  induction h with
  | nil => exact .nil _
  | cons hn hp _ hus _ ih => exact .cons hn (ne_endOfInput_of_le hp) (hus.append ih)

theorem Run.mono (h : Run min' s ks s') (hmin : min ≤ min') : Run min s ks s' := by
  induction h with
  | nil => exact .nil _
  | cons hn hp hx hus _ ih => exact .cons hn (by omega) hx hus ih

theorem Run.append (h : Run min s ks s₁) (h' : Run min s₁ ls s') : Run min s (ks ++ ls) s' := by
  induction h with
  | nil => exact h'
  | cons hn hp hx hus _ ih => exact .cons hn hp hx hus (ih h')

theorem RunsUpTo.sees (h : RunsUpTo min s ks s') : ∃ t, Sees s (chainTokens ks) (.ok t s') := by
  obtain ⟨s₁, t, hrun, hp, -⟩ := h
  exact ⟨t, s₁, hrun.takes, hp⟩

theorem RunsUpTo.cons {t : Token} {us : List Token} (hn : TokenStream.next s = .ok t s₁)
    (hle : max min 1 ≤ (t.kind.precedence : Int)) (hx : unary depth s₁ = .ok x s₂)
    (hus : Takes s₁ us s₂) (h : RunsUpTo min s₂ ks s') : RunsUpTo min s (⟨t, us, x⟩ :: ks) s' := by
  obtain ⟨s₃, u, hrun, hu⟩ := h
  exact ⟨s₃, u, .cons hn hle hx hus hrun, hu⟩

/-- Whether a stream was looked at before makes no difference to the run. -/
theorem RunsUpTo.of_peek {t : Token} (hp : TokenStream.peek s = .ok t s₁)
    (h : RunsUpTo min s₁ ks s') : RunsUpTo min s ks s' := by
  obtain ⟨s₂, u, hrun, hu, hstop⟩ := h
  cases hrun with
  | nil =>
    rw [peek_peek hp] at hu
    exact ⟨s, u, .nil s, hp.trans hu, hstop⟩
  | cons hn hle hx hus hrest =>
    rw [next_eq_of_peek hp] at hn
    exact ⟨s₂, u, .cons hn hle hx hus hrest, hu, hstop⟩

/-- What was looked at behind a run may go on with a looser one. -/
theorem RunsUpTo.trans (h : RunsUpTo min' s ks s₁) (hmin : min ≤ min')
    (h' : RunsUpTo min s₁ ls s') : RunsUpTo min s (ks ++ ls) s' := by
  obtain ⟨s₂, t, hrun, hp, -⟩ := h
  obtain ⟨s₃, u, hrun', hu⟩ := h'.of_peek hp
  exact ⟨s₃, u, (hrun.mono hmin).append hrun', hu⟩

/-- A stream begins with no more than one operand. -/
theorem operand_unique {us vs ws : List Token} {y : Expr} (h : Takes s us s₁)
    (hx : Derives .operand us x) (h' : Takes s (vs ++ ws) s₂) (hy : Derives .operand vs y) :
    us = vs ∧ x = y := by
  have hbegin : ∃ rest rest', us ++ rest = vs ++ rest' := by
    rcases h.prefix_or h' with ⟨rest, hrest⟩ | ⟨t, rest, _, hrest, -⟩
    · exact ⟨[], ws ++ rest, by simp [← hrest]⟩
    · exact ⟨t :: rest, ws, hrest.symm⟩
  obtain ⟨rest, rest', heq⟩ := hbegin
  exact operandsEndAlike _ (Nat.lt_succ_self _) hx hy heq

/-- A run goes no further than a chain of operands that ends in front of a token that binds less
    tightly than `min`. -/
theorem Run.isPrefix (h : Run min s ls s₂) :
    ∀ {ks : List Link} {t : Token}, (∀ k ∈ ks, k.Proper) → Sees s (chainTokens ks) (.ok t s') →
      (t.kind.precedence : Int) < max min 1 → ls <+: ks := by
  induction h with
  | nil => exact fun _ _ _ => List.nil_prefix
  | cons hn hle hx hus _ ih =>
    rintro (_ | ⟨⟨op, vs, y⟩, ks⟩) t hks ⟨s₃, htakes, hp⟩ hstop
    · cases htakes
      obtain ⟨rfl, -⟩ := next_unique hn (next_of_peek hp).2
      omega
    · obtain ⟨⟨-, hy⟩, hproper⟩ := List.forall_mem_cons.mp hks
      rw [chainTokens_cons] at htakes
      cases htakes with
      | cons hn' _ htakes =>
        obtain ⟨rfl, rfl⟩ := next_unique hn hn'
        obtain ⟨rfl, rfl⟩ := operand_unique hus (derives_of_unary hx hus) htakes hy
        exact List.cons_prefix_cons.mpr ⟨rfl, ih hproper ⟨s₃, hus.rest htakes, hp⟩ hstop⟩

/-- A chain of tight operators goes no further than a run that stops in front of a loose one. -/
theorem Run.eq_of_prefix {t : Token} (h : Run min s ls s₁) (hp : TokenStream.peek s₁ = .ok t s')
    (hstop : (t.kind.precedence : Int) < max min 1) (hls : ls <+: ks)
    (hks : ∀ k ∈ ks, max min 1 ≤ (k.precedence : Int)) (htakes : Takes s (chainTokens ks) s₂) :
    ls = ks := by
  obtain ⟨ms, rfl⟩ := hls
  cases ms with
  | nil => exact (List.append_nil ls).symm
  | cons k ms =>
    rw [chainTokens_append] at htakes
    cases h.takes.rest htakes with
    | cons hn _ _ =>
      obtain ⟨rfl, -⟩ := next_unique hn (next_of_peek hp).2
      have hk : max min 1 ≤ (k.precedence : Int) := hks k (by simp)
      exact absurd hstop (Int.not_lt.mpr hk)

end Run

/-! ### The calls -/

section Calls

variable {depth : Nat} {min : Int}

/-- An action ends with what it gives. -/
theorem ends_self {α : Type} (x : Parser α) (s : TokenStream) :
    Ends x s (fun a s' => x s = .ok a s') fun e s' => x s = .error e s' := by
  unfold Ends
  cases x s <;> rfl

/-- The links that an inner call takes are a run together with those that the loop takes. -/
theorem climb_runs
    (ht : ∀ left p s, Ends (binary depth left p) s (fun _ s' => ∃ ks, RunsUpTo p s ks s') Anyhow)
    (n : Nat) (left : Expr) (s : TokenStream) (hn : s.size < n) :
    Ends (climb (unary depth) (binary depth) min n left) s
      (fun _ s' => ∃ ks, RunsUpTo min s ks s') Anyhow := by
  induction n generalizing left s with
  | zero => exact absurd hn (Nat.not_lt_zero _)
  | succ n ih =>
    refine ends_next (fun t s₁ hs₁ => ?_) (fun _ _ _ => trivial)
    by_cases hstop : t.kind.precedence = 0 ∨ (t.kind.precedence : Int) < min
    · rw [if_pos hstop]
      exact ends_pushBack hs₁ fun s₂ hs₂ => ends_pure ⟨[], s, t, .nil s, hs₂, by omega⟩
    · rw [if_neg hstop]
      have hle : max min 1 ≤ (t.kind.precedence : Int) := by omega
      refine .bind ((ends_self _ s₁).mono (fun x s₂ hx => ?_) fun _ _ _ => trivial)
      obtain ⟨us, hus, -⟩ := exists_takes_of_unary hx
      refine .bind ((ht x _ s₂).mono ?_ fun _ _ h => h)
      rintro r s₃ ⟨ks, hks⟩
      have hsize : s₃.size < n := by
        obtain ⟨u, hsees⟩ := hks.sees
        have := size_next_lt hs₁ (ne_endOfInput_of_le hle)
        have := hus.size_le
        have := hsees.size_le
        omega
      -- what the inner call left in the slot is what the loop goes on with
      refine (ih _ s₃ hsize).mono ?_ fun _ _ h => h
      rintro e s₄ ⟨ls, hls⟩
      exact ⟨⟨t, us, x⟩ :: (ks ++ ls), .cons hs₁ hle hx hus (hks.trans (by omega) hls)⟩

theorem binary_runs (depth : Nat) : ∀ (left : Expr) (min : Int) (s : TokenStream),
    Ends (binary depth left min) s (fun _ s' => ∃ ks, RunsUpTo min s ks s') Anyhow := by
  induction depth with
  | zero => exact fun _ _ _ => ends_throw trivial
  | succ depth ih => exact fun left _ s => ends_fuel (climb_runs ih _ left s (Nat.lt_succ_self _))

end Calls

/-- Reading on from any operand with any least precedence takes the longest run of links with
    operators that bind so tightly, leaves the token behind it in the slot, and gives the one tree
    that has the last of the loosest operators on top, and so on on either side of it. -/
theorem binary_climbs {depth : Nat} {left e : Expr} {min : Int} {s s' : TokenStream}
    (h : binary depth left min s = .ok e s') :
    ∃ ks s₁ t, Run min s ks s₁ ∧ Takes s (chainTokens ks) s₁ ∧
      TokenStream.peek s₁ = .ok t s' ∧ s'.pending = some t ∧
      (t.kind.precedence : Int) < max min 1 ∧ (∀ ls s₂, Run min s ls s₂ → ls <+: ks) ∧
      Grouped left ks e ∧ ∀ e', Grouped left ks e' → e' = e := by
  obtain ⟨ks, u, hsees, hks, hgrouped, hstop⟩ :=
    ((readsAt depth).binary left min s .input []).of_ok h
  obtain ⟨ls, s₁, t, hrun, hp, hloose⟩ := (binary_runs depth left min s).of_ok h
  have hlongest (ms : List Link) (s₂ : TokenStream) (hms : Run min s ms s₂) : ms <+: ks :=
    hms.isPrefix (fun k hk => (hks k hk).1) hsees (by omega)
  have htight (k : Link) (hk : k ∈ ks) : max min 1 ≤ (k.precedence : Int) := by
    have hpos := (hks k hk).1.1
    have hmin := (hks k hk).2
    omega
  obtain ⟨s₂, htakes, -⟩ := hsees
  obtain rfl : ls = ks := hrun.eq_of_prefix hp hloose (hlongest ls s₁ hrun) htight htakes
  have hpending : s'.pending = some t := by rw [(next_of_peek hp).1]
  exact ⟨ls, s₁, t, hrun, hrun.takes, hp, hpending, hloose, hlongest, hgrouped,
    fun e' he' => he'.unique hgrouped⟩

/-- Behind `1`, the links at least as tight as a sum are taken from `* 2 + 3 < 4`. -/
theorem binary_climbs_sum : ∃ e s' ks s₁ t,
    binary 20 (.integer ⟨1, 1⟩ (.number 1)) 5 (ofText "* 2 + 3 < 4") = .ok e s' ∧
    e = .binary ⟨1, 5⟩ (.text "+") (.binary ⟨1, 1⟩ (.text "*") (.integer ⟨1, 1⟩ (.number 1))
      (.integer ⟨1, 3⟩ (.number 2))) (.integer ⟨1, 7⟩ (.number 3)) ∧
    Run 5 (ofText "* 2 + 3 < 4") ks s₁ ∧ TokenStream.peek s₁ = .ok t s' ∧
    s'.pending = some t ∧ t = ⟨.symbol .less, .text "<", ⟨1, 9⟩⟩ ∧
    (∀ ls s₂, Run 5 (ofText "* 2 + 3 < 4") ls s₂ → ls <+: ks) ∧
    Grouped (.integer ⟨1, 1⟩ (.number 1)) ks e := by
  have h : binary 20 (.integer ⟨1, 1⟩ (.number 1)) 5 (ofText "* 2 + 3 < 4") =
      .ok (.binary ⟨1, 5⟩ (.text "+") (.binary ⟨1, 1⟩ (.text "*") (.integer ⟨1, 1⟩ (.number 1))
        (.integer ⟨1, 3⟩ (.number 2))) (.integer ⟨1, 7⟩ (.number 3)))
        ⟨⟨[' ', '4'], 9, ⟨1, 10⟩⟩, some ⟨.symbol .less, .text "<", ⟨1, 9⟩⟩⟩ := by rfl
  obtain ⟨ks, s₁, t, hrun, -, hp, hpending, -, hlongest, hgrouped, -⟩ := binary_climbs h
  exact ⟨_, _, ks, s₁, t, h, rfl, hrun, hp, hpending, (Option.some.inj hpending).symm, hlongest,
    hgrouped⟩

end Parser
end ExprLang

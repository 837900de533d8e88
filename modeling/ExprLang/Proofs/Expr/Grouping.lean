import ExprLang.Proofs.Expr.Grammar

/-! Chains of operands.

    An expression is a first operand and a chain of links, each an operator with the operand behind
    it. `Grouped` says which tree a chain stands for: the last of its loosest operators is on top,
    and what is on either side of it is grouped in the same way. Every chain has exactly one such
    tree (`exists_grouped`, `Grouped.unique`), and the levels of the grammar derive these trees and
    no others (`derives_of_grouped`, `Derives.exists_chain`). -/

namespace ExprLang.Grammar

/-- An operator, the tokens of the operand behind it, and that operand. -/
structure Link where
  operator : Token
  spelling : List Token
  operand : Expr
  deriving DecidableEq, Repr

namespace Link

/-- How tightly the operator of a link binds. -/
def precedence (k : Link) : Nat := k.operator.kind.precedence

/-- The tokens of a link. -/
def tokens (k : Link) : List Token := k.operator :: k.spelling

/-- A link holds an operator that binds and an operand that is spelled by its tokens. -/
def Proper (k : Link) : Prop := k.precedence ≠ 0 ∧ Derives .operand k.spelling k.operand

end Link

/-- The tokens of a chain. -/
def chainTokens (ks : List Link) : List Token := ks.flatMap Link.tokens

@[simp] theorem chainTokens_nil : chainTokens [] = [] := rfl

@[simp] theorem chainTokens_cons (k : Link) (ks : List Link) :
    chainTokens (k :: ks) = k.operator :: (k.spelling ++ chainTokens ks) := rfl

theorem chainTokens_append (ks ls : List Link) :
    chainTokens (ks ++ ls) = chainTokens ks ++ chainTokens ls := List.flatMap_append

/-- The tree of an operand and the chain behind it, with the last of the loosest operators on
    top. -/
inductive Grouped : Expr → List Link → Expr → Prop
  | nil (left : Expr) : Grouped left [] left
  | split {left l r : Expr} {before after : List Link} {k : Link} :
    (∀ x ∈ before, k.precedence ≤ x.precedence) → (∀ x ∈ after, k.precedence < x.precedence) →
    Grouped left before l → Grouped k.operand after r →
    Grouped left (before ++ k :: after) (.binary k.operator.position k.operator.value l r)

/-! ### A chain has one tree -/

/-- A chain that is not empty has a last one among its loosest operators. -/
theorem exists_split : ∀ {ks : List Link}, ks ≠ [] → ∃ before k after,
    ks = before ++ k :: after ∧ (∀ x ∈ before, k.precedence ≤ x.precedence) ∧
      ∀ x ∈ after, k.precedence < x.precedence
  | [], h => absurd rfl h
  | [k], _ => ⟨[], k, [], rfl, by simp, by simp⟩
  | k :: l :: ks, _ => by
    obtain ⟨before, m, after, hks, hb, ha⟩ := exists_split (List.cons_ne_nil l ks)
    by_cases hk : k.precedence < m.precedence
    · refine ⟨[], k, l :: ks, rfl, by simp, ?_⟩
      rw [hks]
      exact List.forall_mem_append.mpr ⟨fun x hx => Nat.lt_of_lt_of_le hk (hb x hx),
        List.forall_mem_cons.mpr ⟨hk, fun x hx => Nat.lt_trans hk (ha x hx)⟩⟩
    · refine ⟨k :: before, m, after, by rw [hks, List.cons_append], ?_, ha⟩
      exact List.forall_mem_cons.mpr ⟨Nat.le_of_not_lt hk, hb⟩

/-- Every chain has a tree. -/
theorem exists_grouped (left : Expr) (ks : List Link) : ∃ e, Grouped left ks e := by
  by_cases hks : ks = []
  · exact ⟨left, hks ▸ .nil left⟩
  · obtain ⟨before, k, after, hsplit, hb, ha⟩ := exists_split hks
    have hlen : ks.length = before.length + (after.length + 1) := by
      rw [hsplit, List.length_append, List.length_cons]
    obtain ⟨l, hl⟩ := exists_grouped left before
    obtain ⟨r, hr⟩ := exists_grouped k.operand after
    rw [hsplit]
    exact ⟨_, .split hb ha hl hr⟩
termination_by ks.length
decreasing_by all_goals omega

/-- The last of the loosest operators of a chain stands in one place. -/
theorem split_unique {b b' a a' : List Link} {k k' : Link}
    (h : b ++ k :: a = b' ++ k' :: a')
    (hb : ∀ x ∈ b, k.precedence ≤ x.precedence) (ha : ∀ x ∈ a, k.precedence < x.precedence)
    (hb' : ∀ x ∈ b', k'.precedence ≤ x.precedence)
    (ha' : ∀ x ∈ a', k'.precedence < x.precedence) : b = b' ∧ k = k' ∧ a = a' := by
  rcases List.append_eq_append_iff.mp h with ⟨m, rfl, hm⟩ | ⟨m, rfl, hm⟩
  · cases m with
    | nil =>
      injection hm with h₁ h₂
      exact ⟨(List.append_nil b).symm, h₁, h₂⟩
    | cons x m =>
      -- the second operator would stand behind the first one and be looser
      injection hm with h₁ h₂
      subst h₁ h₂
      have := hb' k (by simp)
      have := ha k' (by simp)
      omega
  · cases m with
    | nil =>
      injection hm with h₁ h₂
      exact ⟨List.append_nil b', h₁.symm, h₂.symm⟩
    | cons x m =>
      injection hm with h₁ h₂
      subst h₁ h₂
      have := hb k' (by simp)
      have := ha' k (by simp)
      omega

/-- A chain has only one tree. -/
theorem Grouped.unique {left e e' : Expr} {ks : List Link} (h : Grouped left ks e)
    (h' : Grouped left ks e') : e = e' := by
  induction h generalizing e' with
  | nil left =>
    generalize hks : ([] : List Link) = ks at h'
    cases h' with
    | nil => rfl
    | split => simp at hks
  | split hb ha _ _ ihl ihr =>
    rename_i left l r before after k _ _
    generalize hks : before ++ k :: after = ks at h'
    cases h' with
    | nil => simp at hks
    | split hb' ha' hl' hr' =>
      obtain ⟨rfl, rfl, rfl⟩ := split_unique hks hb ha hb' ha'
      rw [ihl hl', ihr hr']

/-! ### Chains and the levels of the grammar -/

/-- A category derives the tree of a chain whose operators are none looser than the category. -/
theorem derives_of_grouped {left e : Expr} {ks : List Link} (h : Grouped left ks e) :
    ∀ {c : Category} {ts : List Token}, c.rank ≤ 7 → Derives .operand ts left →
      (∀ k ∈ ks, k.Proper ∧ c.rank ≤ k.precedence) → Derives c (ts ++ chainTokens ks) e := by
  induction h with
  | nil left =>
    intro c ts hc hts _
    simpa using hts.loosen hc
  | split hb ha _ _ ihl ihr =>
    rename_i left l r before after k _ _
    intro c ts _ hts hks
    obtain ⟨hk, hck⟩ := hks k (by simp)
    obtain ⟨d, s, hs, hmem, hd, hd6⟩ := Category.exists_mem_operators hk.1
    have hdk : d.rank = k.precedence := hd
    have hdt := Category.rank_tighter (Category.ne_primary_of_mem hmem)
    have hl : Derives d (ts ++ chainTokens before) l :=
      ihl (by omega) hts fun x hx => ⟨(hks x (by simp [hx])).1, hdk ▸ hb x hx⟩
    have hr : Derives d.tighter (k.spelling ++ chainTokens after) r :=
      ihr (by omega) hk.2 fun x hx => ⟨(hks x (by simp [hx])).1, by have := ha x hx; omega⟩
    have hbin : Derives d ((ts ++ chainTokens before) ++ k.operator ::
        (k.spelling ++ chainTokens after)) _ := .binary hs hmem hl hr
    rw [chainTokens_append, chainTokens_cons, ← List.append_assoc]
    exact hbin.loosen (by omega)

/-- What a category derives is an operand and a chain whose operators are none looser than the
    category, grouped. -/
theorem Derives.exists_chain {c : Category} {ts : List Token} {e : Expr} (h : Derives c ts e) :
    ∃ us left ks, ts = us ++ chainTokens ks ∧ Derives .operand us left ∧
      (∀ k ∈ ks, k.Proper ∧ c.rank ≤ k.precedence) ∧ Grouped left ks e := by
  have operand {c : Category} {ts : List Token} {e : Expr} (h : Derives .operand ts e) :
      ∃ us left ks, ts = us ++ chainTokens ks ∧ Derives .operand us left ∧
        (∀ k ∈ ks, k.Proper ∧ c.rank ≤ k.precedence) ∧ Grouped left ks e :=
    ⟨ts, e, [], by simp, h, by simp, .nil e⟩
  induction h with
  | binary ht hs hl hr ihl ihr =>
    rename_i c s t _ _ _ _
    obtain ⟨us, left, ks, rfl, hleft, hks, hgl⟩ := ihl
    obtain ⟨vs, first, ls, rfl, hfirst, hls, hgr⟩ := ihr
    have htighter := Category.rank_tighter (Category.ne_primary_of_mem hs)
    have hrank := Category.precedence_eq_rank ht hs
    have hpos := c.rank_pos
    have hlink : Link.Proper ⟨t, vs, first⟩ ∧ c.rank ≤ Link.precedence ⟨t, vs, first⟩ :=
      ⟨⟨fun h => Nat.ne_of_gt hpos (hrank.symm.trans h), hfirst⟩, Nat.le_of_eq hrank.symm⟩
    refine ⟨us, left, ks ++ ⟨t, vs, first⟩ :: ls, ?_, hleft, ?_, ?_⟩
    · simp only [chainTokens_append, chainTokens_cons, List.append_assoc]
    · refine List.forall_mem_append.mpr ⟨hks, List.forall_mem_cons.mpr ⟨hlink, fun k hk => ?_⟩⟩
      exact ⟨(hls k hk).1, by have := (hls k hk).2; omega⟩
    · refine .split (k := ⟨t, vs, first⟩) ?_ ?_ hgl hgr
      · intro x hx
        have := (hks x hx).2
        simp only [Link.precedence] at *
        omega
      · intro x hx
        have := (hls x hx).2
        simp only [Link.precedence] at *
        omega
  | tighter hc _ ih =>
    obtain ⟨us, left, ks, hts, hleft, hks, hg⟩ := ih
    have := Category.rank_tighter hc
    exact ⟨us, left, ks, hts, hleft, fun k hk => ⟨(hks k hk).1, by have := (hks k hk).2; omega⟩, hg⟩
  | prefixed ht h _ => exact operand (.prefixed ht h)
  | integer ht => exact operand (Derives.integer ht).operand_of_primary
  | identifier ht => exact operand (Derives.identifier ht).operand_of_primary
  | parenthesized hl h hr _ => exact operand (Derives.parenthesized hl h hr).operand_of_primary
  | conditional hi hc ht hx he hy hn _ _ _ =>
    exact operand (Derives.conditional hi hc ht hx he hy hn).operand_of_primary

end ExprLang.Grammar

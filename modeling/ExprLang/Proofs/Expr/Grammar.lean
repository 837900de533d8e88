import ExprLang.Expr.Basic
import ExprLang.Token.Basic

/-! The grammar of expressions.

        disjunction := disjunction "||" conjunction | conjunction
        conjunction := conjunction "&&" equality | equality
        equality    := equality ("==" | "!=") comparison | comparison
        comparison  := comparison "<" sum | sum
        sum         := sum ("+" | "-") product | product
        product     := product ("*" | "/" | "%") operand | operand
        operand     := ("-" | "!") operand | primary
        primary     := integer | identifier | "(" disjunction ")"
                     | "if" disjunction "then" disjunction "else" disjunction "end"

    A sentence is a list of tokens that a disjunction derives. The six levels of operators differ
    in nothing but their operators, and all of them group from the left. The grammar knows nothing
    of precedences; that a symbol belongs to the level that its precedence says is a theorem
    (`mem_operators_iff`). -/

namespace ExprLang

/-- The tree without its positions. -/
def Expr.unplaced : Expr → Expr
  | .integer _ v => .integer .unknown v
  | .identifier _ n => .identifier .unknown n
  | .conditional _ c t e => .conditional .unknown c.unplaced t.unplaced e.unplaced
  | .unary _ op e => .unary .unknown op e.unplaced
  | .binary _ op l r => .binary .unknown op l.unplaced r.unplaced

namespace Grammar

/-- The categories of the grammar, from the loosest to the tightest. -/
inductive Category where
  | disjunction | conjunction | equality | comparison | sum | product | operand | primary
  deriving DecidableEq, Repr

namespace Category

/-- The operators between the operands of a category. -/
def operators : Category → List Symbol
  | disjunction => [.orOr]
  | conjunction => [.andAnd]
  | equality => [.equal, .notEqual]
  | comparison => [.less]
  | sum => [.plus, .minus]
  | product => [.star, .slash, .percent]
  | operand | primary => []

/-- The next tighter category. -/
def tighter : Category → Category
  | disjunction => conjunction
  | conjunction => equality
  | equality => comparison
  | comparison => sum
  | sum => product
  | product => operand
  | operand | primary => primary

/-- The place of a category, counted from the loosest. -/
def rank : Category → Nat
  | disjunction => 1
  | conjunction => 2
  | equality => 3
  | comparison => 4
  | sum => 5
  | product => 6
  | operand => 7
  | primary => 8

theorem rank_tighter {c : Category} (h : c ≠ primary) : c.tighter.rank = c.rank + 1 := by
  cases c <;> first | rfl | exact absurd rfl h

theorem eq_of_rank_eq {c d : Category} (h : c.rank = d.rank) : c = d := by
  cases c <;> cases d <;> first | rfl | exact absurd h (by decide)

/-- A symbol is an operator of the category whose rank is its precedence. -/
theorem mem_operators_iff {c : Category} {s : Symbol} :
    s ∈ c.operators ↔ s.precedence = c.rank := by
  cases c <;> cases s <;> decide

theorem rank_pos (c : Category) : 0 < c.rank := by cases c <;> decide

/-- An operator of a category binds as tightly as the rank of the category says. -/
theorem precedence_eq_rank {c : Category} {s : Symbol} {t : Token} (ht : t.kind = .symbol s)
    (hs : s ∈ c.operators) : t.kind.precedence = c.rank := by
  rw [ht]
  exact mem_operators_iff.mp hs

theorem ne_primary_of_mem {c : Category} {s : Symbol} (hs : s ∈ c.operators) : c ≠ primary := by
  rintro rfl
  exact absurd hs List.not_mem_nil

/-- Every token that binds operands is an operator of some category. -/
theorem exists_mem_operators {t : Token} (h : t.kind.precedence ≠ 0) :
    ∃ c s, t.kind = .symbol s ∧ s ∈ operators c ∧ c.rank = t.kind.precedence ∧ c.rank ≤ 6 := by
  cases hk : t.kind with
  | symbol s =>
    rw [hk] at h
    obtain ⟨c, hc⟩ : ∃ c : Category, c.rank = s.precedence := by
      cases s <;> first
        | exact absurd rfl h
        | exact ⟨disjunction, rfl⟩ | exact ⟨conjunction, rfl⟩ | exact ⟨equality, rfl⟩
        | exact ⟨comparison, rfl⟩ | exact ⟨sum, rfl⟩ | exact ⟨product, rfl⟩
    exact ⟨c, s, rfl, mem_operators_iff.mpr hc.symm, hc, hc ▸ s.precedence_le_six⟩
  | integer | identifier | keyword _ | endOfInput =>
    rw [hk] at h
    exact absurd rfl h

end Category

/-- A token that stands in front of an operand. -/
def Leading (t : Token) : Prop := t.kind = .symbol .minus ∨ t.kind = .symbol .bang

/-- A category derives some tokens and builds a tree from them. -/
inductive Derives : Category → List Token → Expr → Prop
  | binary {c : Category} {s : Symbol} {t : Token} {ls rs : List Token} {l r : Expr} :
    t.kind = .symbol s → s ∈ c.operators → Derives c ls l → Derives c.tighter rs r →
    Derives c (ls ++ t :: rs) (.binary t.position t.value l r)
  | tighter {c : Category} {ts : List Token} {e : Expr} :
    c ≠ .primary → Derives c.tighter ts e → Derives c ts e
  | prefixed {t : Token} {ts : List Token} {e : Expr} :
    Leading t → Derives .operand ts e →
    Derives .operand (t :: ts) (.unary t.position t.value e)
  | integer {t : Token} : t.kind = .integer → Derives .primary [t] (.integer t.position t.value)
  | identifier {t : Token} :
    t.kind = .identifier → Derives .primary [t] (.identifier t.position t.value)
  | parenthesized {l r : Token} {ts : List Token} {e : Expr} :
    l.kind = .symbol .leftParen → Derives .disjunction ts e → r.kind = .symbol .rightParen →
    Derives .primary (l :: (ts ++ [r])) e
  | conditional {i t e n : Token} {cs ts es : List Token} {c x y : Expr} :
    i.kind = .keyword .ifWord → Derives .disjunction cs c →
    t.kind = .keyword .thenWord → Derives .disjunction ts x →
    e.kind = .keyword .elseWord → Derives .disjunction es y →
    n.kind = .keyword .endWord →
    Derives .primary (i :: (cs ++ t :: (ts ++ e :: (es ++ [n])))) (.conditional i.position c x y)

/-- Some tokens that the grammar derives as a whole, and their tree. -/
def Sentence (ts : List Token) (e : Expr) : Prop := Derives .disjunction ts e

namespace Derives

variable {c d : Category} {ts : List Token} {e : Expr}

/-- What a category derives, every looser category derives too. -/
theorem loosen (h : Derives d ts e) (hr : c.rank ≤ d.rank) : Derives c ts e := by
  obtain ⟨n, hn⟩ : ∃ n, d.rank = c.rank + n := ⟨d.rank - c.rank, by omega⟩
  induction n generalizing c with
  | zero => exact Category.eq_of_rank_eq hn ▸ h
  | succ n ih =>
    have hc : c ≠ .primary := by
      rintro rfl
      cases d <;> simp only [Category.rank] at hn <;> omega
    have ht := Category.rank_tighter hc
    exact .tighter hc (ih (by omega) (by omega))

theorem operand_of_primary (h : Derives .primary ts e) : Derives .operand ts e :=
  .tighter (by decide) h

theorem ne_nil (h : Derives c ts e) : ts ≠ [] := by
  induction h with
  | binary => simp
  | tighter _ _ ih => exact ih
  | prefixed | integer | identifier | parenthesized | conditional => simp

/-- An operand is a primary, or an operand behind a token in front of it. -/
theorem operand_cases (h : Derives .operand ts e) : Derives .primary ts e ∨
    ∃ t us x, ts = t :: us ∧ Leading t ∧ Derives .operand us x ∧
      e = .unary t.position t.value x := by
  cases h with
  | binary _ hs => exact absurd hs List.not_mem_nil
  | tighter _ h => exact .inl h
  | prefixed ht h => exact .inr ⟨_, _, _, rfl, ht, h, rfl⟩

/-- The four forms of a primary. -/
theorem primary_cases (h : Derives .primary ts e) :
    (∃ t, ts = [t] ∧ t.kind = .integer ∧ e = .integer t.position t.value) ∨
    (∃ t, ts = [t] ∧ t.kind = .identifier ∧ e = .identifier t.position t.value) ∨
    (∃ l us r, ts = l :: (us ++ [r]) ∧ l.kind = .symbol .leftParen ∧
      Derives .disjunction us e ∧ r.kind = .symbol .rightParen) ∨
    (∃ i cs t us f es n c x y, ts = i :: (cs ++ t :: (us ++ f :: (es ++ [n]))) ∧
      i.kind = .keyword .ifWord ∧ Derives .disjunction cs c ∧
      t.kind = .keyword .thenWord ∧ Derives .disjunction us x ∧
      f.kind = .keyword .elseWord ∧ Derives .disjunction es y ∧
      n.kind = .keyword .endWord ∧ e = .conditional i.position c x y) := by
  cases h with
  | binary _ hs => exact absurd hs List.not_mem_nil
  | tighter h _ => exact absurd rfl h
  | integer ht => exact .inl ⟨_, rfl, ht, rfl⟩
  | identifier ht => exact .inr (.inl ⟨_, rfl, ht, rfl⟩)
  | parenthesized hl h hr => exact .inr (.inr (.inl ⟨_, _, _, rfl, hl, h, hr⟩))
  | conditional hi hc ht hx he hy hn =>
    exact .inr (.inr (.inr ⟨_, _, _, _, _, _, _, _, _, _, rfl, hi, hc, ht, hx, he, hy, hn, rfl⟩))

end Derives
end Grammar
end ExprLang

import ExprLang.Expr.Basic
import ExprLang.Expr.Operator
import ExprLang.Proofs.Token.Front

/-! Trees that can be written down.

    A tree of any values need not be the tree of a text. It can be one if its operators have a
    meaning, its names are identifiers that are not reserved, and its numbers are in some range. -/

namespace ExprLang

/-- A word that is not reserved. -/
def Text.IsName (s : String) : Prop := IsWord s ∧ Keyword.ofText? s = none

theorem Text.IsName.ofWord {s : String} (h : IsName s) : TokenKind.ofWord s = .identifier := by
  rw [TokenKind.ofWord, h.2]

/-- A tree of operators with a meaning, of names, and of numbers that fit. -/
def Expr.Regular (fits : Int → Prop) : Expr → Prop
  | .integer _ v => ∃ n, v = .number n ∧ fits n
  | .identifier _ v => ∃ s, v = .text s ∧ Text.IsName s
  | .conditional _ c t e => c.Regular fits ∧ t.Regular fits ∧ e.Regular fits
  | .unary _ op e => (∃ o : UnaryOp, op = .text o.text) ∧ e.Regular fits
  | .binary _ op l r => (∃ o : BinaryOp, op = .text o.text) ∧ l.Regular fits ∧ r.Regular fits

theorem Expr.Regular.mono {fits fits' : Int → Prop} (hfits : ∀ n, fits n → fits' n) {e : Expr}
    (h : e.Regular fits) : e.Regular fits' := by
  induction e with
  | integer =>
    obtain ⟨n, hv, hn⟩ := h
    exact ⟨n, hv, hfits n hn⟩
  | identifier => exact h
  | conditional _ _ _ _ ihc iht ihe => exact ⟨ihc h.1, iht h.2.1, ihe h.2.2⟩
  | unary _ _ _ ih => exact ⟨h.1, ih h.2⟩
  | binary _ _ _ _ ihl ihr => exact ⟨h.1, ihl h.2.1, ihr h.2.2⟩

namespace UnaryOp

/-- The symbol of an operator in front of an operand. -/
def symbol : UnaryOp → Symbol
  | negate => .minus
  | invert => .bang

theorem text_symbol (op : UnaryOp) : op.symbol.text = op.text := by cases op <;> rfl

end UnaryOp

namespace BinaryOp

/-- The symbol of an operator between operands. -/
def symbol : BinaryOp → Symbol
  | logical .or => .orOr
  | logical .and => .andAnd
  | arithmetic .equal => .equal
  | arithmetic .notEqual => .notEqual
  | arithmetic .less => .less
  | arithmetic .add => .plus
  | arithmetic .subtract => .minus
  | arithmetic .multiply => .star
  | arithmetic .divide => .slash
  | arithmetic .remainder => .percent

theorem text_symbol (op : BinaryOp) : op.symbol.text = op.text := by
  rcases op with op | op <;> cases op <;> rfl

theorem precedence_symbol_ne_zero (op : BinaryOp) : op.symbol.precedence ≠ 0 := by
  rcases op with op | op <;> cases op <;> decide

/-- Every symbol that binds operands is that of an operator. -/
theorem exists_symbol_eq {s : Symbol} (h : s.precedence ≠ 0) : ∃ op : BinaryOp, op.symbol = s := by
  have hall : ∃ op ∈ all, op.symbol = s := by
    revert h
    cases s <;> decide
  exact hall.imp fun _ h => h.2

end BinaryOp
end ExprLang

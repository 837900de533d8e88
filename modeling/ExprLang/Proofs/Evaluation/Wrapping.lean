import Mathlib.Data.Int.ModEq
import ExprLang.Proofs.Evaluation.Refinement

/-! Wrapping once is enough.

    Sums, differences, products and changes of sign wrap at every node of a tree. It comes to the
    same to compute with integers of any size and to wrap the result (`evaluate_wraps_once`), because
    wrapping keeps a number modulo `2 ^ 64` and is told by it (`wrap_eq_wrap_iff`), and these
    operations respect that. -/

namespace ExprLang

/-- The value that a tree of numbers has without bounds. The tree is made of numbers of any size by
    changes of sign, sums, differences and products. -/
inductive Expr.HasExact : Expr → Int → Prop
  | integer {p : Position} {n : Int} : HasExact (.integer p (.number n)) n
  | negate {p : Position} {e : Expr} {n : Int} :
    HasExact e n → HasExact (.unary p (.text "-") e) (-n)
  | add {p : Position} {l r : Expr} {m n : Int} :
    HasExact l m → HasExact r n → HasExact (.binary p (.text "+") l r) (m + n)
  | subtract {p : Position} {l r : Expr} {m n : Int} :
    HasExact l m → HasExact r n → HasExact (.binary p (.text "-") l r) (m - n)
  | multiply {p : Position} {l r : Expr} {m n : Int} :
    HasExact l m → HasExact r n → HasExact (.binary p (.text "*") l r) (m * n)

namespace Word64

variable {m n : Int}

/-- Wrapping takes away a multiple of `2 ^ 64`. -/
theorem wrap_modEq (n : Int) : wrap n ≡ n [ZMOD 2 ^ 64] := by
  simp only [Int.ModEq, wrap]
  omega

/-- What wrapping gives is told by the number modulo `2 ^ 64`. -/
theorem wrap_eq_wrap_iff : wrap m = wrap n ↔ m ≡ n [ZMOD 2 ^ 64] := by
  constructor
  · intro h
    calc m ≡ wrap m [ZMOD 2 ^ 64] := (wrap_modEq m).symm
      _ = wrap n := h
      _ ≡ n [ZMOD 2 ^ 64] := wrap_modEq n
  · intro h
    simp only [Int.ModEq] at h
    simp only [wrap]
    omega

end Word64

namespace Evaluation

open Word64

/-- The value of a node agrees with its exact value as far as wrapping can tell, and it is wrapped
    itself unless the node is a leaf. -/
def Approximates (e : Expr) (n v : Int) : Prop :=
  n ≡ v [ZMOD 2 ^ 64] ∧ (e.isLeaf = false → n = wrap v)

/-- A wrapped result agrees with the exact one if what was wrapped does. -/
theorem approximates_wrap {e : Expr} {n v : Int} (h : n ≡ v [ZMOD 2 ^ 64]) :
    Approximates e (wrap n) v :=
  ⟨(wrap_modEq n).trans h, fun _ => wrap_eq_wrap_iff.mpr h⟩

/-- An operator between two trees combines their numbers, whatever their size. -/
theorem eval_arithmetic {l r : Expr} {m n : Int} (hl : l.eval = .ok (.number m))
    (hr : r.eval = .ok (.number n)) (p : Position) (op : ArithmeticOp) :
    (Expr.binary p (.text op.text) l r).eval = (combine p op m n).map .number := by
  have hop : BinaryOp.ofValue? (.text op.text) = some (.arithmetic op) :=
    BinaryOp.ofValue?_text (.arithmetic op)
  simp [Expr.eval, hl, hr, logicalOp?, applyBinary, hop, bind, Except.bind]

/-- Every node of the tree has a value that approximates its exact value. -/
theorem eval_of_hasExact {e : Expr} {v : Int} (h : e.HasExact v) :
    ∃ n, e.eval = .ok (.number n) ∧ Approximates e n v := by
  induction h with
  | @integer p n =>
    refine ⟨n, rfl, Int.ModEq.refl n, ?_⟩
    intro hleaf
    simp [Expr.isLeaf] at hleaf
  | @negate p e v _ ih =>
    obtain ⟨n, hn, hmod, -⟩ := ih
    refine ⟨wrap (-n), ?_, approximates_wrap hmod.neg⟩
    simp [Expr.eval, hn, applyUnary, UnaryOp.ofValue?, UnaryOp.ofText?, bind, Except.bind]
  | @add p l r _ _ _ _ ihl ihr =>
    obtain ⟨m, hm, hmodl, -⟩ := ihl
    obtain ⟨n, hn, hmodr, -⟩ := ihr
    exact ⟨wrap (m + n), eval_arithmetic hm hn p .add, approximates_wrap (hmodl.add hmodr)⟩
  | @subtract p l r _ _ _ _ ihl ihr =>
    obtain ⟨m, hm, hmodl, -⟩ := ihl
    obtain ⟨n, hn, hmodr, -⟩ := ihr
    exact ⟨wrap (m - n), eval_arithmetic hm hn p .subtract, approximates_wrap (hmodl.sub hmodr)⟩
  | @multiply p l r _ _ _ _ ihl ihr =>
    obtain ⟨m, hm, hmodl, -⟩ := ihl
    obtain ⟨n, hn, hmodr, -⟩ := ihr
    exact ⟨wrap (m * n), eval_arithmetic hm hn p .multiply, approximates_wrap (hmodl.mul hmodr)⟩

/-- Wrapping at every step is wrapping once at the end. A tree of numbers of any size under changes
    of sign, sums, differences and products has a value, which wraps to what its exact value wraps
    to; and unless the tree is a single number, its value is the wrapped exact value. -/
theorem evaluate_wraps_once {e : Expr} {v : Int} (h : e.HasExact v) :
    (∃ n, evaluate e = .ok (.number n) ∧ wrap n = wrap v) ∧
      (e.isLeaf = false → evaluate e = .ok (.number (wrap v))) := by
  obtain ⟨n, hn, hmod, hroot⟩ := eval_of_hasExact h
  have hvalue := evaluate_of_ok hn
  refine ⟨⟨n, hvalue, wrap_eq_wrap_iff.mpr hmod⟩, ?_⟩
  intro hleaf
  rw [hvalue, hroot hleaf]

/-- Twice a number of more than sixty-four bits, less its product with minus three, is five times the
    number, and that is wrapped. -/
theorem evaluate_wraps_once_product :
    let x : Expr := .integer ⟨1, 1⟩ (.number 36893488147419103239)
    let tree : Expr := .binary ⟨1, 5⟩ (.text "-") (.binary ⟨1, 3⟩ (.text "+") x x)
      (.binary ⟨1, 9⟩ (.text "*") x (.unary ⟨1, 11⟩ (.text "-") (.integer ⟨1, 12⟩ (.number 3))))
    tree.HasExact 184467440737095516195 ∧ evaluate x = .ok (.number 36893488147419103239) ∧
      evaluate tree = .ok (.number (wrap 184467440737095516195)) ∧
      wrap 184467440737095516195 = 35 := by
  intro x tree
  have hx : x.HasExact 36893488147419103239 := .integer
  have htree : tree.HasExact 184467440737095516195 :=
    .subtract (.add hx hx) (.multiply hx (.negate .integer))
  exact ⟨htree, evaluate_of_ok rfl, (evaluate_wraps_once htree).2 rfl, by decide⟩

end Evaluation
end ExprLang

import ExprLang.Proofs.Evaluation.Refinement

/-! Trees that can stand for one another.

    A surrounding is a tree with a hole in it. What the whole is worth depends only on what is worth
    in the hole, be that a value or an error (`Surrounding.eval_fill`), so trees that are worth the
    same can stand for one another wherever they occur (`interchangeable_of_eval`). The logical
    operators are choices in this sense: a conjunction and a disjunction are choices between truth
    values, and a negated conjunction is a disjunction of negations. -/

namespace ExprLang

/-- A tree with a hole in it. -/
inductive Surrounding where
  | hole
  | condition (position : Position) (condition : Surrounding) (consequent alternative : Expr)
  | consequent (position : Position) (condition : Expr) (consequent : Surrounding)
    (alternative : Expr)
  | alternative (position : Position) (condition consequent : Expr) (alternative : Surrounding)
  | operand (position : Position) (operator : Value) (operand : Surrounding)
  | left (position : Position) (operator : Value) (left : Surrounding) (right : Expr)
  | right (position : Position) (operator : Value) (left : Expr) (right : Surrounding)
  deriving DecidableEq, Repr

namespace Surrounding

/-- The tree with another one in its hole. -/
def fill : Surrounding → Expr → Expr
  | hole, x => x
  | condition p c t e, x => .conditional p (c.fill x) t e
  | consequent p c t e, x => .conditional p c (t.fill x) e
  | alternative p c t e, x => .conditional p c t (e.fill x)
  | operand p op e, x => .unary p op (e.fill x)
  | left p op l r, x => .binary p op (l.fill x) r
  | right p op l r, x => .binary p op l (r.fill x)

/-- What the whole is worth depends only on what is worth in the hole. -/
theorem eval_fill {x y : Expr} (h : x.eval = y.eval) (s : Surrounding) :
    (s.fill x).eval = (s.fill y).eval := by
  induction s with
  | hole => exact h
  | condition p c t e ih => simp only [fill, Expr.eval, ih]
  | consequent p c t e ih => simp only [fill, Expr.eval, ih]
  | alternative p c t e ih => simp only [fill, Expr.eval, ih]
  | operand p op e ih => simp only [fill, Expr.eval, ih]
  | left p op l r ih => simp only [fill, Expr.eval, ih]
  | right p op l r ih => simp only [fill, Expr.eval, ih]

end Surrounding

namespace Evaluation

/-- The machine cannot tell apart two trees that are worth the same. -/
theorem evaluate_congr {x y : Expr} (h : x.eval = y.eval) : evaluate x = evaluate y := by
  rw [evaluate, evaluate, Machine.start, Machine.start, Machine.run_eval, Machine.run_eval, h]

/-- Wherever one of the trees stands, the other could stand, and evaluation would come to the same:
    the same value, or the same error. -/
def Interchangeable (x y : Expr) : Prop :=
  ∀ s : Surrounding, evaluate (s.fill x) = evaluate (s.fill y)

theorem interchangeable_of_eval {x y : Expr} (h : x.eval = y.eval) : Interchangeable x y :=
  fun s => evaluate_congr (s.eval_fill h)

/-! ### What logical operators and choices are worth -/

section Worth

variable (p : Position) (a b c : Expr)

theorem isFalse_truth (b : Bool) : isFalse (truth b) = !b := by cases b <;> rfl

theorem eval_not : (Expr.unary p (.text "!") a).eval = a.eval.map fun v => truth (isFalse v) := by
  rw [Expr.eval]
  cases a.eval <;> rfl

theorem eval_choice : (Expr.conditional p a b c).eval =
    a.eval.bind fun v => if isFalse v then c.eval else b.eval := by
  rw [Expr.eval]
  rfl

/-- A right operand that counts is worth its truth. -/
theorem eval_logical {op : Value} {o : LogicalOp} (h : logicalOp? op = some o) :
    (Expr.binary p op a b).eval = a.eval.bind fun v =>
      (decided? o v).elim (b.eval.map fun w => truth (!isFalse w)) .ok := by
  rw [Expr.eval, h]
  cases a.eval with
  | error err => rfl
  | ok v =>
    simp only [bind, Except.bind]
    cases decided? o v <;> cases b.eval <;> rfl

theorem eval_and : (Expr.binary p (.text "&&") a b).eval = a.eval.bind fun v =>
    if isFalse v then .ok (truth false) else b.eval.map fun w => truth (!isFalse w) := by
  rw [eval_logical p a b (rfl : logicalOp? (.text "&&") = some .and)]
  congr 1
  funext v
  cases hv : isFalse v <;> simp [decided?, hv]

theorem eval_or : (Expr.binary p (.text "||") a b).eval = a.eval.bind fun v =>
    if isFalse v then b.eval.map fun w => truth (!isFalse w) else .ok (truth true) := by
  rw [eval_logical p a b (rfl : logicalOp? (.text "||") = some .or)]
  congr 1
  funext v
  cases hv : isFalse v <;> simp [decided?, hv]

/-- Two negations leave the truth of a value. -/
theorem eval_not_not (q : Position) :
    (Expr.unary p (.text "!") (.unary q (.text "!") a)).eval =
      a.eval.map fun v => truth (!isFalse v) := by
  rw [eval_not, eval_not]
  cases a.eval with
  | error err => rfl
  | ok v => simp only [Except.map, isFalse_truth]

end Worth

/-! ### Logical operators as choices -/

section Choices

variable (p q r s z : Position) (a b : Expr)

theorem eval_and_eq_choice : (Expr.binary p (.text "&&") a b).eval =
    (Expr.conditional q a (.unary r (.text "!") (.unary s (.text "!") b))
      (.integer z (.number 0))).eval := by
  rw [eval_and, eval_choice, eval_not_not]
  rfl

theorem eval_or_eq_choice : (Expr.binary p (.text "||") a b).eval =
    (Expr.conditional q a (.integer z (.number 1))
      (.unary r (.text "!") (.unary s (.text "!") b))).eval := by
  rw [eval_or, eval_choice, eval_not_not]
  rfl

/-- Both sides look at the right operand when the left one is true. -/
theorem eval_not_and_eq_or : (Expr.unary q (.text "!") (.binary p (.text "&&") a b)).eval =
    (Expr.binary z (.text "||") (.unary r (.text "!") a) (.unary s (.text "!") b)).eval := by
  rw [eval_not, eval_and, eval_or, eval_not, eval_not]
  cases a.eval with
  | error err => rfl
  | ok v =>
    cases hv : isFalse v
    · cases b.eval <;> simp [Except.bind, Except.map, isFalse_truth, hv]
    · simp [Except.bind, Except.map, isFalse_truth, hv]

end Choices

/-- The logical operators mean their conditional forms wherever they stand, whatever the operands
    are, also when these fail: a conjunction is a choice between the truth of its right operand and
    zero, a disjunction one between one and that truth, and a negated conjunction is the disjunction
    of the negations. The positions of the nodes do not matter. -/
theorem logical_interchangeable (a b : Expr) (p q r s z : Position) :
    Interchangeable (.binary p (.text "&&") a b)
      (.conditional q a (.unary r (.text "!") (.unary s (.text "!") b))
        (.integer z (.number 0))) ∧
    Interchangeable (.binary p (.text "||") a b)
      (.conditional q a (.integer z (.number 1))
        (.unary r (.text "!") (.unary s (.text "!") b))) ∧
    Interchangeable (.unary q (.text "!") (.binary p (.text "&&") a b))
      (.binary z (.text "||") (.unary r (.text "!") a) (.unary s (.text "!") b)) :=
  ⟨interchangeable_of_eval (eval_and_eq_choice p q r s z a b),
    interchangeable_of_eval (eval_or_eq_choice p q r s z a b),
    interchangeable_of_eval (eval_not_and_eq_or p q r s z a b)⟩

end Evaluation
end ExprLang

import ExprLang.Evaluation.Machine

/-! The machine finds the value that the recursion on the tree defines.

    A machine that is about to evaluate an expression does what the recursion says and then goes on
    with one more value, or it stops with the error of the recursion. This holds whatever else is
    to be done and whatever values lie below (`Machine.run_eval`), because operands are evaluated on
    top of work that waits for them. Each kind of waiting task has its own lemma. -/

namespace ExprLang.Evaluation

namespace Machine

variable (work : List Task) (values : List Value)

theorem run_nil : run ⟨[], values⟩ = .ok ⟨[], values⟩ := by
  rw [run]
  exact dif_pos rfl

/-- The first task is done, and then all that it leaves and all that stood behind it. -/
theorem run_cons (t : Task) : run ⟨t :: work, values⟩ =
    (perform t values).bind fun p => run ⟨p.1 ++ work, p.2⟩ := by
  have hstep : step ⟨t :: work, values⟩ =
      (perform t values).map fun p => ⟨p.1 ++ work, p.2⟩ := rfl
  rw [run, dif_neg (List.cons_ne_nil t work)]
  cases h : perform t values with
  | error err =>
    rw [h] at hstep
    split
    · rename_i e he
      exact congrArg Except.error (Except.error.inj (he.symm.trans hstep))
    · rename_i m hm
      cases hm.symm.trans hstep
  | ok p =>
    rw [h] at hstep
    split
    · rename_i e he
      cases he.symm.trans hstep
    · rename_i m hm
      exact congrArg run (Except.ok.inj (hm.symm.trans hstep))

/-- Evaluating a node is doing the tasks that it comes down to. -/
theorem run_expand {e : Expr} {tasks : List Task} (h : expand e = .ok (tasks, [])) :
    run ⟨.eval e :: work, values⟩ = run ⟨tasks ++ work, values⟩ := by
  rw [run_cons, perform, h]
  rfl

theorem expand_logical {op : Value} {logical : LogicalOp} (h : logicalOp? op = some logical)
    (p : Position) (l r : Expr) :
    expand (.binary p op l r) = .ok ([.eval l, .shortCircuit logical r], []) := by
  rw [expand, h]

theorem expand_operator {op : Value} (h : logicalOp? op = none) (p : Position) (l r : Expr) :
    expand (.binary p op l r) = .ok ([.eval l, .eval r, .applyBinary p op], []) := by
  rw [expand, h]

theorem run_applyUnary (op v : Value) : run ⟨.applyUnary op :: work, v :: values⟩ =
    (Evaluation.applyUnary op v).bind fun w => run ⟨work, w :: values⟩ := by
  rw [run_cons, perform]
  cases Evaluation.applyUnary op v <;> rfl

/-- The value on top is that of the right operand. -/
theorem run_applyBinary (p : Position) (op l r : Value) :
    run ⟨.applyBinary p op :: work, r :: l :: values⟩ =
      (Evaluation.applyBinary p op l r).bind fun w => run ⟨work, w :: values⟩ := by
  rw [run_cons, perform]
  cases Evaluation.applyBinary p op l r <;> rfl

theorem run_branch (t e : Expr) (v : Value) : run ⟨.branch t e :: work, v :: values⟩ =
    run ⟨.eval (if isFalse v then e else t) :: work, values⟩ := by
  rw [run_cons]
  rfl

theorem run_truth (v : Value) : run ⟨.truth :: work, v :: values⟩ =
    run ⟨work, truth (!isFalse v) :: values⟩ := by
  rw [run_cons]
  rfl

/-- A logical operator whose left operand decides drops its right operand. -/
theorem run_shortCircuit_decided {op : LogicalOp} {v w : Value} (h : decided? op v = some w)
    (right : Expr) :
    run ⟨.shortCircuit op right :: work, v :: values⟩ = run ⟨work, w :: values⟩ := by
  rw [run_cons, perform, h]
  rfl

theorem run_shortCircuit_undecided {op : LogicalOp} {v : Value} (h : decided? op v = none)
    (right : Expr) : run ⟨.shortCircuit op right :: work, v :: values⟩ =
      run ⟨.eval right :: .truth :: work, values⟩ := by
  rw [run_cons, perform, h]
  rfl

/-- A machine evaluates the expression on top as the recursion says and goes on with its value, or
    stops with its error. -/
theorem run_eval (e : Expr) (work : List Task) (values : List Value) :
    run ⟨.eval e :: work, values⟩ = e.eval.bind fun v => run ⟨work, v :: values⟩ := by
  induction e generalizing work values with
  | integer p v =>
    rw [run_cons]
    rfl
  | identifier p n =>
    rw [run_cons]
    rfl
  | conditional p c t e ihc iht ihe =>
    rw [run_expand work values rfl, List.cons_append, ihc, Expr.eval]
    cases c.eval with
    | error err => rfl
    | ok v =>
      show run ⟨.branch t e :: work, v :: values⟩ = _
      rw [run_branch]
      by_cases hv : isFalse v = true
      · rw [if_pos hv, ihe]
        simp only [bind, Except.bind, hv, if_true]
      · rw [if_neg hv, iht]
        simp only [bind, Except.bind, hv, Bool.false_eq_true, if_false]
  | unary p op e ih =>
    rw [run_expand work values rfl, List.cons_append, ih, Expr.eval]
    cases e.eval with
    | error err => rfl
    | ok v => exact run_applyUnary work values op v
  | binary p op l r ihl ihr =>
    rw [Expr.eval]
    cases hop : logicalOp? op with
    | none =>
      rw [run_expand work values (expand_operator hop p l r), List.cons_append, ihl]
      cases l.eval with
      | error err => rfl
      | ok v =>
        show run ⟨.eval r :: .applyBinary p op :: work, v :: values⟩ = _
        rw [ihr]
        cases r.eval with
        | error err => rfl
        | ok w => exact run_applyBinary work values p op v w
    | some logical =>
      rw [run_expand work values (expand_logical hop p l r), List.cons_append, ihl]
      cases l.eval with
      | error err => rfl
      | ok v =>
        show run ⟨.shortCircuit logical r :: work, v :: values⟩ = _
        cases hd : decided? logical v with
        | some w =>
          rw [run_shortCircuit_decided work values hd]
          simp only [bind, Except.bind, hd, pure, Except.pure]
        | none =>
          rw [run_shortCircuit_undecided work values hd, ihr]
          simp only [bind, Except.bind, hd]
          cases r.eval with
          | error err => rfl
          | ok w => exact run_truth work values w

end Machine

/-- The machine finds the value of a tree. -/
theorem evaluate_of_ok {e : Expr} {v : Value} (h : e.eval = .ok v) : evaluate e = .ok v := by
  rw [evaluate, Machine.start, Machine.run_eval, h]
  simp only [Except.bind, Machine.run_nil]

/-- The machine has the outcome of the recursion on the tree, be it a value or an error. -/
theorem evaluate_eq_eval (e : Expr) : evaluate e = e.eval := by
  have hrun := Machine.run_eval e [] []
  unfold evaluate Machine.start
  rw [hrun]
  cases e.eval with
  | error err => rfl
  | ok v => simp only [Except.bind, Machine.run_nil]

end ExprLang.Evaluation

import ExprLang.Evaluation.Basic

/-! Evaluation without recursion on the tree.

    A machine holds the tasks that are still to be done and the values that they will take, both as
    stacks. Each step does the first task; a task that has to wait for a value stands behind the
    evaluation of what gives it. The steps end because every task is replaced by lighter ones. -/

namespace ExprLang.Evaluation

/-- A task of the machine. -/
inductive Task where
  | eval (e : Expr)
  | applyUnary (operator : Value)
  | applyBinary (position : Position) (operator : Value)
  | branch (consequent alternative : Expr)
  | shortCircuit (operator : LogicalOp) (right : Expr)
  | truth
  deriving DecidableEq, Repr

/-- The tasks still to be done and the values computed so far, both with the next one first. -/
structure Machine where
  work : List Task
  values : List Value
  deriving DecidableEq, Repr

/-- The tasks that evaluating a node comes down to, or its value. -/
def expand : Expr → Except EvalError (List Task × List Value)
  | .integer _ v => .ok ([], [v])
  | .identifier p n => .error (.unbound n p)
  | .conditional _ c t e => .ok ([.eval c, .branch t e], [])
  | .unary _ op e => .ok ([.eval e, .applyUnary op], [])
  | .binary p op l r =>
    match logicalOp? op with
    | some logical => .ok ([.eval l, .shortCircuit logical r], [])
    | none => .ok ([.eval l, .eval r, .applyBinary p op], [])

/-- What a task does to the values: the tasks that it leaves and the values after it. -/
def perform : Task → List Value → Except EvalError (List Task × List Value)
  | .eval e, vs => (expand e).map fun (tasks, new) => (tasks, new ++ vs)
  | .applyUnary op, v :: vs => (applyUnary op v).map fun w => ([], w :: vs)
  | .applyBinary p op, r :: l :: vs => (applyBinary p op l r).map fun w => ([], w :: vs)
  | .branch t e, v :: vs => .ok ([.eval (if isFalse v then e else t)], vs)
  | .shortCircuit op right, v :: vs =>
    match decided? op v with
    | some w => .ok ([], w :: vs)
    | none => .ok ([.eval right, .truth], vs)
  | .truth, v :: vs => .ok ([], truth (!isFalse v) :: vs)
  | _, _ => .error .missingOperand

/-- A bound on the steps that a task can still cause. -/
def Task.weight : Task → Nat
  | .eval e => 3 * e.size
  | .applyUnary _ | .applyBinary _ _ | .truth => 1
  | .branch t e => 3 * (t.size + e.size) + 1
  | .shortCircuit _ right => 3 * right.size + 2

/-- A bound on the steps that some tasks can still cause. -/
def weight : List Task → Nat
  | [] => 0
  | t :: tasks => t.weight + weight tasks

@[simp] theorem weight_nil : weight [] = 0 := rfl

@[simp] theorem weight_cons (t : Task) (ts : List Task) :
    weight (t :: ts) = t.weight + weight ts := rfl

theorem weight_append (ts us : List Task) : weight (ts ++ us) = weight ts + weight us := by
  induction ts with
  | nil => exact (Nat.zero_add _).symm
  | cons t ts ih => rw [List.cons_append, weight_cons, weight_cons, ih, Nat.add_assoc]

theorem weight_expand_lt {e : Expr} {tasks : List Task} {new : List Value}
    (h : expand e = .ok (tasks, new)) : weight tasks < 3 * e.size := by
  unfold expand at h
  split at h
  · cases h
    simp [Expr.size]
  · cases h
  · cases h
    simp only [weight_cons, weight_nil, Task.weight, Expr.size]
    omega
  · cases h
    simp only [weight_cons, weight_nil, Task.weight, Expr.size]
    omega
  · split at h <;> cases h <;> simp only [weight_cons, weight_nil, Task.weight, Expr.size] <;> omega

/-- A task leaves lighter tasks. -/
theorem weight_perform_lt {t : Task} {vs vs' : List Value} {tasks : List Task}
    (h : perform t vs = .ok (tasks, vs')) : weight tasks < t.weight := by
  unfold perform at h
  split at h
  · rename_i e
    cases he : expand e with
    | error err => rw [he] at h; cases h
    | ok p =>
      rw [he] at h
      cases h
      exact weight_expand_lt he
  · rename_i op v vs
    cases ha : applyUnary op v with
    | error err => rw [ha] at h; cases h
    | ok w => rw [ha] at h; cases h; simp [Task.weight]
  · rename_i p op r l vs
    cases ha : applyBinary p op l r with
    | error err => rw [ha] at h; cases h
    | ok w => rw [ha] at h; cases h; simp [Task.weight]
  · cases h
    simp only [weight_cons, weight_nil, Task.weight]
    split <;> omega
  · split at h <;> cases h <;> simp only [weight_cons, weight_nil, Task.weight] <;> omega
  · cases h
    simp [Task.weight]
  · cases h

/-- Does the first task. -/
def Machine.step (m : Machine) : Except EvalError Machine :=
  match m.work with
  | [] => .ok m
  | t :: work => (perform t m.values).map fun (tasks, values) => ⟨tasks ++ work, values⟩

theorem Machine.weight_step_lt {m m' : Machine} (hm : m.work ≠ []) (h : m.step = .ok m') :
    weight m'.work < weight m.work := by
  unfold Machine.step at h
  split at h
  · rename_i hw
    exact absurd hw hm
  · rename_i t work hw
    cases hp : perform t m.values with
    | error err => rw [hp] at h; cases h
    | ok p =>
      rw [hp] at h
      cases h
      have := weight_perform_lt hp
      rw [hw, weight_append, weight_cons]
      omega

/-- Does all tasks. -/
def Machine.run (m : Machine) : Except EvalError Machine :=
  if _hm : m.work = [] then .ok m
  else
    match _h : m.step with
    | .error e => .error e
    | .ok m' => Machine.run m'
termination_by weight m.work
decreasing_by exact Machine.weight_step_lt _hm _h

/-- The machine that is about to evaluate an expression. -/
def Machine.start (e : Expr) : Machine := ⟨[.eval e], []⟩

/-- The value of an expression, found by the machine. -/
def evaluate (e : Expr) : Except EvalError Value :=
  match (Machine.start e).run with
  | .error err => .error err
  | .ok m =>
    match m.values with
    | v :: _ => .ok v
    | [] => .error .missingOperand

end ExprLang.Evaluation

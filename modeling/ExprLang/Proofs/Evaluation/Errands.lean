import ExprLang.Proofs.Evaluation.Refinement
import ExprLang.Proofs.Expr.Address

/-! For whom the machine works.

    A task of the machine does not say which node of the tree it is done for. Here every task is an
    errand for a node, told by its address (`Errand`), and a machine that keeps track of this takes
    the same steps (`Tracked.machine_step`). The record of its errands is the work of a whole
    evaluation, one task after the other (`Tracked.log`), and every state on the way divides it into
    what is done and what is still to come (`Tracked.Reaches.log_eq`). The record follows the
    recursion on the tree: a node has errands of its own, and between them those of its children, as
    long as none of them fails (`Expr.errands`, `Tracked.log_eval`). -/

namespace ExprLang

namespace Evaluation

/-- A task and the address of the node that it is done for. -/
structure Errand where
  task : Task
  owner : Address
  deriving DecidableEq, Repr

namespace Errand

/-- An errand in a subtree is one in the tree. -/
def under (r : Role) (i : Errand) : Errand := ⟨i.task, r :: i.owner⟩

/-- An errand in the subtree at an address is one in the tree. -/
def behind (a : Address) (i : Errand) : Errand := ⟨i.task, a ++ i.owner⟩

/-- The addresses of the nodes that the tasks which a task leaves are done for. -/
def owners (i : Errand) (vs : List Value) : List Address :=
  match i.task, vs with
  | .eval (.conditional ..), _ => [i.owner ++ [.condition], i.owner]
  | .eval (.unary ..), _ => [i.owner ++ [.operand], i.owner]
  | .eval (.binary _ op _ _), _ =>
    match logicalOp? op with
    | some _ => [i.owner ++ [.left], i.owner]
    | none => [i.owner ++ [.left], i.owner ++ [.right], i.owner]
  | .branch .., v :: _ => [i.owner ++ [if isFalse v then .alternative else .consequent]]
  | .shortCircuit .., _ => [i.owner ++ [.right], i.owner]
  | _, _ => []

/-- The errands that the tasks which a task leaves are. -/
def heirs (i : Errand) (vs : List Value) (tasks : List Task) : List Errand :=
  (tasks.zip (i.owners vs)).map fun p => ⟨p.1, p.2⟩

@[simp] theorem behind_under (a : Address) (r : Role) (i : Errand) :
    (i.under r).behind a = i.behind (a ++ [r]) := by
  simp [under, behind]

@[simp] theorem behind_nil (i : Errand) : i.behind [] = i := rfl

@[simp] theorem behind_root (a : Address) (t : Task) : behind a ⟨t, []⟩ = ⟨t, a⟩ := by
  rw [behind, List.append_nil]

theorem map_behind_under (a : Address) (r : Role) (is : List Errand) :
    (is.map (under r)).map (behind a) = is.map (behind (a ++ [r])) := by
  rw [List.map_map]
  exact List.map_congr_left fun i _ => behind_under a r i

end Errand

/-- A machine that knows which node each of its tasks is done for. -/
structure Tracked where
  work : List Errand
  values : List Value
  deriving DecidableEq, Repr

namespace Tracked

/-- The machine itself. -/
def machine (m : Tracked) : Machine := ⟨m.work.map Errand.task, m.values⟩

/-- Does the first task. -/
def step (m : Tracked) : Except EvalError Tracked :=
  match m.work with
  | [] => .ok m
  | i :: work =>
    (perform i.task m.values).map fun (tasks, values) => ⟨i.heirs m.values tasks ++ work, values⟩

end Tracked

/-- Every task that a task leaves is done for some node. -/
theorem length_owners {i : Errand} {vs vs' : List Value} {tasks : List Task}
    (h : perform i.task vs = .ok (tasks, vs')) : tasks.length ≤ (i.owners vs).length := by
  obtain ⟨t, a⟩ := i
  cases t with
  | eval e =>
    cases e with
    | integer | conditional | unary =>
      cases h
      simp [Errand.owners]
    | identifier => cases h
    | binary p op l r =>
      cases hop : logicalOp? op with
      | some o =>
        simp only [perform, Machine.expand_logical hop, Except.map] at h
        cases h
        simp [Errand.owners, hop]
      | none =>
        simp only [perform, Machine.expand_operator hop, Except.map] at h
        cases h
        simp [Errand.owners, hop]
  | applyUnary op =>
    rcases vs with _ | ⟨v, vs⟩
    · cases h
    · simp only [perform] at h
      cases hv : applyUnary op v <;> rw [hv] at h <;> cases h
      simp
  | applyBinary p op =>
    rcases vs with _ | ⟨r, _ | ⟨l, vs⟩⟩
    · cases h
    · cases h
    · simp only [perform] at h
      cases hv : applyBinary p op l r <;> rw [hv] at h <;> cases h
      simp
  | branch t e => rcases vs with _ | ⟨v, vs⟩ <;> cases h; simp [Errand.owners]
  | shortCircuit o right =>
    rcases vs with _ | ⟨v, vs⟩
    · cases h
    · simp only [perform] at h
      split at h <;> cases h <;> simp [Errand.owners]
  | truth => rcases vs with _ | ⟨v, vs⟩ <;> cases h; simp

/-- The tasks of what an errand leaves are those that its task leaves. -/
theorem map_task_heirs {i : Errand} {vs vs' : List Value} {tasks : List Task}
    (h : perform i.task vs = .ok (tasks, vs')) : (i.heirs vs tasks).map Errand.task = tasks := by
  rw [Errand.heirs, List.map_map]
  exact List.map_fst_zip (length_owners h)

namespace Tracked

/-- A step of the machine does not depend on whom it is taken for. -/
theorem machine_step (m : Tracked) : m.step.map machine = m.machine.step := by
  obtain ⟨work, values⟩ := m
  cases work with
  | nil => rfl
  | cons i work =>
    simp only [step, machine, Machine.step, List.map_cons]
    cases h : perform i.task values with
    | error err => rfl
    | ok p =>
      obtain ⟨tasks, vs⟩ := p
      simp only [Except.map, machine, List.map_append, map_task_heirs h]

theorem weight_step_lt {m m' : Tracked} {i : Errand} {work : List Errand}
    (hm : m.work = i :: work) (h : m.step = .ok m') :
    weight m'.machine.work < weight m.machine.work := by
  have hstep := m.machine_step
  rw [h] at hstep
  refine Machine.weight_step_lt ?_ hstep.symm
  simp [machine, hm]

/-- The errands that are done until no task is left or one fails, in this order. -/
def log (m : Tracked) : List Errand :=
  match _hm : m.work with
  | [] => []
  | i :: _ =>
    i :: match _h : m.step with
      | .ok m' => log m'
      | .error _ => []
termination_by weight m.machine.work
decreasing_by exact weight_step_lt _hm _h

/-- The machine that is about to evaluate an expression. -/
def start (e : Expr) : Tracked := ⟨[⟨.eval e, []⟩], []⟩

/-- The states that the evaluation of an expression comes to, and the errands that it has done until
    then. -/
inductive Reaches (e : Expr) : List Errand → Tracked → Prop
  | start : Reaches e [] (start e)
  | step {past : List Errand} {m m' : Tracked} {i : Errand} {work : List Errand} :
    Reaches e past m → m.work = i :: work → m.step = .ok m' → Reaches e (past ++ [i]) m'

end Tracked

/-- What follows a result; nothing follows a failure. -/
def after {α β : Type} (r : Except EvalError α) (f : α → List β) : List β :=
  match r with
  | .ok a => f a
  | .error _ => []

section After

variable {α β : Type} (f : α → List β)

@[simp] theorem after_ok (a : α) : after (.ok a) f = f a := rfl

@[simp] theorem after_error (err : EvalError) : after (.error err) f = [] := rfl

end After

namespace Tracked

theorem log_nil (vs : List Value) : log ⟨[], vs⟩ = [] := by rw [log]

theorem log_cons (i : Errand) (work : List Errand) (vs : List Value) :
    log ⟨i :: work, vs⟩ =
      i :: after (perform i.task vs) fun p => log ⟨i.heirs vs p.1 ++ work, p.2⟩ := by
  have hstep : step ⟨i :: work, vs⟩ =
      (perform i.task vs).map fun p => ⟨i.heirs vs p.1 ++ work, p.2⟩ := rfl
  rw [log]
  cases h : perform i.task vs with
  | error err =>
    rw [h] at hstep
    split
    · rename_i hw; cases hw
    · rename_i j work' hw
      cases hw
      split
      · rename_i m hm
        cases hm.symm.trans hstep
      · rfl
  | ok p =>
    rw [h] at hstep
    split
    · rename_i hw; cases hw
    · rename_i j work' hw
      cases hw
      split
      · rename_i m hm
        cases hm.symm.trans hstep
        rfl
      · rename_i e he
        cases he.symm.trans hstep

/-- An errand comes in front of all that is done after it. -/
theorem log_of_step {m m' : Tracked} {i : Errand} {work : List Errand} (hm : m.work = i :: work)
    (h : m.step = .ok m') : m.log = i :: m'.log := by
  obtain ⟨_, vs⟩ := m
  cases hm
  rw [log_cons]
  unfold step at h
  cases hp : perform i.task vs with
  | error err => simp [hp, Except.map] at h
  | ok p =>
    simp only [hp, Except.map] at h
    cases h
    rfl

/-- What was done before a state and what is done from it on are all that is done. -/
theorem Reaches.log_eq {e : Expr} {past : List Errand} {m : Tracked} (h : Reaches e past m) :
    (Tracked.start e).log = past ++ m.log := by
  induction h with
  | start => rfl
  | step _ hm hstep ih => rw [ih, log_of_step hm hstep, List.append_assoc, List.singleton_append]

/-- A step of a machine that knows for whom it works is one of the machine. -/
theorem machine_of_step {m m' : Tracked} (h : m.step = .ok m') :
    m.machine.step = .ok m'.machine := by
  rw [← machine_step, h]
  rfl

end Tracked

end Evaluation

open Evaluation

/-- The errands that the evaluation of a tree takes, with addresses in this tree. -/
def Expr.errands : Expr → List Errand
  | .integer p v => [⟨.eval (.integer p v), []⟩]
  | .identifier p n => [⟨.eval (.identifier p n), []⟩]
  | .conditional p c t e =>
    ⟨.eval (.conditional p c t e), []⟩ :: (c.errands.map (.under .condition) ++
      after c.eval fun v => ⟨.branch t e, []⟩ ::
        if isFalse v then e.errands.map (.under .alternative)
        else t.errands.map (.under .consequent))
  | .unary p op e =>
    ⟨.eval (.unary p op e), []⟩ :: (e.errands.map (.under .operand) ++
      after e.eval fun _ => [⟨.applyUnary op, []⟩])
  | .binary p op l r =>
    ⟨.eval (.binary p op l r), []⟩ :: (l.errands.map (.under .left) ++
      after l.eval fun v =>
        match logicalOp? op with
        | some o => ⟨.shortCircuit o r, []⟩ ::
          match decided? o v with
          | some _ => []
          | none => r.errands.map (.under .right) ++ after r.eval fun _ => [⟨.truth, []⟩]
        | none => r.errands.map (.under .right) ++ after r.eval fun _ => [⟨.applyBinary p op, []⟩])

namespace Evaluation.Tracked

section Steps

variable (a : Address) (work : List Errand) (vs : List Value)

/-- Evaluating a node is doing the errands that it comes down to. -/
theorem log_expand {e : Expr} {tasks : List Task} (h : expand e = .ok (tasks, [])) :
    log ⟨⟨.eval e, a⟩ :: work, vs⟩ =
      ⟨.eval e, a⟩ :: log ⟨Errand.heirs ⟨.eval e, a⟩ vs tasks ++ work, vs⟩ := by
  rw [log_cons, perform, h]
  rfl

theorem log_applyUnary (op v : Value) : log ⟨⟨.applyUnary op, a⟩ :: work, v :: vs⟩ =
    ⟨.applyUnary op, a⟩ ::
      after (Evaluation.applyUnary op v) fun w => log ⟨work, w :: vs⟩ := by
  rw [log_cons, perform]
  cases Evaluation.applyUnary op v <;> rfl

theorem log_applyBinary (p : Position) (op l r : Value) :
    log ⟨⟨.applyBinary p op, a⟩ :: work, r :: l :: vs⟩ =
      ⟨.applyBinary p op, a⟩ ::
        after (Evaluation.applyBinary p op l r) fun w => log ⟨work, w :: vs⟩ := by
  rw [log_cons, perform]
  cases Evaluation.applyBinary p op l r <;> rfl

theorem log_branch (t e : Expr) (v : Value) : log ⟨⟨.branch t e, a⟩ :: work, v :: vs⟩ =
    ⟨.branch t e, a⟩ ::
      log ⟨⟨.eval (if isFalse v then e else t),
        a ++ [if isFalse v then .alternative else .consequent]⟩ :: work, vs⟩ := by
  rw [log_cons]
  rfl

theorem log_truth (v : Value) : log ⟨⟨.truth, a⟩ :: work, v :: vs⟩ =
    ⟨.truth, a⟩ :: log ⟨work, truth (!isFalse v) :: vs⟩ := by
  rw [log_cons]
  rfl

theorem log_shortCircuit_decided {op : LogicalOp} {v w : Value} (h : decided? op v = some w)
    (right : Expr) : log ⟨⟨.shortCircuit op right, a⟩ :: work, v :: vs⟩ =
      ⟨.shortCircuit op right, a⟩ :: log ⟨work, w :: vs⟩ := by
  rw [log_cons, perform, h]
  rfl

theorem log_shortCircuit_undecided {op : LogicalOp} {v : Value} (h : decided? op v = none)
    (right : Expr) : log ⟨⟨.shortCircuit op right, a⟩ :: work, v :: vs⟩ =
      ⟨.shortCircuit op right, a⟩ ::
        log ⟨⟨.eval right, a ++ [.right]⟩ :: ⟨.truth, a⟩ :: work, vs⟩ := by
  rw [log_cons, perform, h]
  rfl

end Steps

/-- A machine does the errands of the expression on top and goes on with its value, unless one of
    them fails. -/
theorem log_eval (e : Expr) (a : Address) (work : List Errand) (vs : List Value) :
    log ⟨⟨.eval e, a⟩ :: work, vs⟩ =
      e.errands.map (.behind a) ++ after e.eval fun v => log ⟨work, v :: vs⟩ := by
  induction e generalizing a work vs with
  | integer p v =>
    rw [log_cons]
    simp only [Expr.errands, List.map_cons, List.map_nil, Errand.behind_root]
    rfl
  | identifier p n =>
    rw [log_cons]
    simp only [Expr.errands, List.map_cons, List.map_nil, Errand.behind_root]
    rfl
  | conditional p c t e ihc iht ihe =>
    rw [log_expand a work vs rfl, Expr.errands, Expr.eval]
    show _ :: log ⟨⟨.eval c, a ++ [.condition]⟩ :: ⟨.branch t e, a⟩ :: work, vs⟩ = _
    rw [ihc, List.map_cons, List.map_append, Errand.map_behind_under, Errand.behind_root]
    cases c.eval with
    | error err => simp [bind, Except.bind]
    | ok v =>
      rw [after_ok, log_branch]
      by_cases hv : isFalse v = true
      · simp [bind, Except.bind, hv, ihe]
      · simp [bind, Except.bind, hv, iht]
  | unary p op e ih =>
    rw [log_expand a work vs rfl, Expr.errands, Expr.eval]
    show _ :: log ⟨⟨.eval e, a ++ [.operand]⟩ :: ⟨.applyUnary op, a⟩ :: work, vs⟩ = _
    rw [ih, List.map_cons, List.map_append, Errand.map_behind_under, Errand.behind_root]
    cases e.eval with
    | error err => simp [bind, Except.bind]
    | ok v => simp [bind, Except.bind, log_applyUnary]
  | binary p op l r ihl ihr =>
    rw [Expr.errands, Expr.eval, List.map_cons, List.map_append, Errand.map_behind_under,
      Errand.behind_root]
    cases hop : logicalOp? op with
    | none =>
      rw [log_expand a work vs (Machine.expand_operator hop p l r)]
      simp only [Errand.heirs, Errand.owners, hop]
      show _ :: log ⟨⟨.eval l, a ++ [.left]⟩ :: ⟨.eval r, a ++ [.right]⟩ ::
        ⟨.applyBinary p op, a⟩ :: work, vs⟩ = _
      rw [ihl]
      cases l.eval with
      | error err => simp [bind, Except.bind]
      | ok v =>
        rw [after_ok, ihr]
        cases r.eval with
        | error err => simp [bind, Except.bind]
        | ok w => simp [bind, Except.bind, log_applyBinary]
    | some o =>
      rw [log_expand a work vs (Machine.expand_logical hop p l r)]
      simp only [Errand.heirs, Errand.owners, hop]
      show _ :: log ⟨⟨.eval l, a ++ [.left]⟩ :: ⟨.shortCircuit o r, a⟩ :: work, vs⟩ = _
      rw [ihl]
      cases l.eval with
      | error err => simp [bind, Except.bind]
      | ok v =>
        rw [after_ok]
        cases hd : decided? o v with
        | some w =>
          rw [log_shortCircuit_decided a work vs hd]
          simp [bind, Except.bind, hd, pure, Except.pure]
        | none =>
          rw [log_shortCircuit_undecided a work vs hd, ihr]
          cases r.eval with
          | error err => simp [bind, Except.bind, hd]
          | ok w => simp [bind, Except.bind, hd, log_truth, pure, Except.pure]

/-- The errands of the whole evaluation. -/
theorem log_start (e : Expr) : (start e).log = e.errands := by
  rw [start, log_eval, List.map_id'' Errand.behind_nil]
  cases e.eval with
  | error err => rw [after_error, List.append_nil]
  | ok v => rw [after_ok, log_nil, List.append_nil]

end Evaluation.Tracked
end ExprLang

import ExprLang.Evaluation.Machine
import ExprLang.Proofs.Evaluation.Range

/-! The machine never lacks a value.

    Every task takes its operands from the stack and gives one value to the tasks behind it, at once
    or through the tasks that it leaves. So whether there are enough values is a matter of the tasks
    and of the height of the stack (`Balanced`), and a step keeps it up, whatever the tree is
    (`perform_balanced`). At the end the value of the tree is all that is left. -/

namespace ExprLang.Evaluation

/-- How many values a task takes from the stack. -/
def Task.operands : Task → Nat
  | .eval _ => 0
  | .applyUnary _ | .branch _ _ | .shortCircuit _ _ | .truth => 1
  | .applyBinary _ _ => 2

/-- On a stack of this height the tasks can be done one after the other, and one value is left. -/
def Balanced : List Task → Nat → Prop
  | [], n => n = 1
  | t :: work, n => t.operands ≤ n ∧ Balanced work (n - t.operands + 1)

/-- The tasks that a node comes down to give one value. -/
theorem expand_balanced {work : List Task} {n : Nat} (e : Expr) (hn : Balanced work (n + 1)) :
    Yields (fun p => Balanced (p.1 ++ work) (p.2.length + n)) (· ≠ .missingOperand) (expand e) := by
  cases e with
  | integer => simpa [expand, Nat.add_comm 1 n] using hn
  | identifier => simp [expand]
  | conditional | unary => simpa [expand, Balanced, Task.operands] using hn
  | binary p op l r =>
    rw [expand]
    split <;> simpa [Balanced, Task.operands] using hn

/-- A task finds its operands, and what it leaves keeps the balance. -/
theorem perform_balanced {t : Task} {work : List Task} {vs : List Value}
    (h : Balanced (t :: work) vs.length) :
    Yields (fun p => Balanced (p.1 ++ work) p.2.length) (· ≠ .missingOperand) (perform t vs) := by
  obtain ⟨hle, hwork⟩ := h
  cases t with
  | eval e =>
    refine (expand_balanced e hwork).map fun p hp => ?_
    simpa [Task.operands] using hp
  | applyUnary op =>
    rcases vs with _ | ⟨v, vs⟩
    · simp [Task.operands] at hle
    · refine (applyUnary_ne_missingOperand op v).map fun w _ => ?_
      simpa [Task.operands] using hwork
  | applyBinary p op =>
    rcases vs with _ | ⟨r, _ | ⟨l, vs⟩⟩
    · simp [Task.operands] at hle
    · simp [Task.operands] at hle
    · refine (applyBinary_ne_missingOperand p op l r).map fun w _ => ?_
      simpa [Task.operands] using hwork
  | branch t e =>
    rcases vs with _ | ⟨v, vs⟩
    · simp [Task.operands] at hle
    · simpa [perform, Balanced, Task.operands] using hwork
  | shortCircuit op right =>
    rcases vs with _ | ⟨v, vs⟩
    · simp [Task.operands] at hle
    · rw [perform]
      split <;> simpa [Balanced, Task.operands] using hwork
  | truth =>
    rcases vs with _ | ⟨v, vs⟩
    · simp [Task.operands] at hle
    · simpa [perform, Balanced, Task.operands] using hwork

namespace Machine

/-- What every step keeps up, a run keeps up to its end; and it fails as a step does. -/
theorem run_yields {inv : Machine → Prop} {blame : EvalError → Prop}
    (hstep : ∀ m, inv m → Yields inv blame m.step) {m : Machine} (h : inv m) :
    Yields (fun m' => m'.work = [] ∧ inv m') blame m.run := by
  fun_induction run m with
  | case1 m hwork => exact ⟨hwork, h⟩
  | case2 m hwork err herr =>
    have := hstep m h
    rwa [herr] at this
  | case3 m hwork m' hm' ih =>
    have := hstep m h
    rw [hm'] at this
    exact ih this

/-- The machine has as many values as its tasks will take. -/
def IsBalanced (m : Machine) : Prop := Balanced m.work m.values.length

theorem isBalanced_start (e : Expr) : (start e).IsBalanced := by
  simp [IsBalanced, start, Balanced, Task.operands]

/-- A step of a balanced machine finds its operands and leaves the machine balanced. -/
theorem IsBalanced.step {m : Machine} (h : m.IsBalanced) :
    Yields IsBalanced (· ≠ .missingOperand) m.step := by
  obtain ⟨work, values⟩ := m
  cases work with
  | nil => exact h
  | cons t work => exact (perform_balanced h).map fun p hp => hp

/-- A balanced machine without tasks has one value. -/
theorem IsBalanced.exists_value {m : Machine} (h : m.IsBalanced) (hwork : m.work = []) :
    ∃ v, m.values = [v] := by
  unfold IsBalanced at h
  rw [hwork] at h
  exact List.length_eq_one_iff.mp h

end Machine

/-- The evaluation of a tree never lacks a value. -/
theorem evaluate_ne_missingOperand (e : Expr) : evaluate e ≠ .error .missingOperand := by
  have hrun := Machine.run_yields (fun m h => h.step) (Machine.isBalanced_start e)
  unfold evaluate
  cases h : (Machine.start e).run with
  | error err =>
    rw [h] at hrun
    simpa using hrun
  | ok m =>
    rw [h] at hrun
    obtain ⟨v, hv⟩ := hrun.2.exists_value hrun.1
    simp [hv]

end ExprLang.Evaluation

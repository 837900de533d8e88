import ExprLang.Proofs.Evaluation.Balance
import ExprLang.Proofs.Evaluation.Refinement
import ExprLang.Proofs.Expr.Provenance

/-! The trees of texts are safe to evaluate.

    While the machine evaluates a regular tree, it is balanced, its tasks belong to the tree, and
    its values are numbers of sixty-four bits (`Machine.Sound`). A step keeps this up, or it fails
    at a node of the tree: in a division that has no result, or at a name (`Machine.Sound.step`).
    So the evaluation ends with a number, or it fails in this way. -/

namespace ExprLang

namespace Evaluation

/-- The errors that a node of a tree is to blame for: a division without a result, or a name. -/
inductive Blames (root : Expr) : EvalError → Prop
  | undefined {p : Position} {op : ArithmeticOp} {l r : Expr} {err : EvalError} :
    .binary p (.text op.text) l r ∈ root.nodes → Undefined p op err → Blames root err
  | unbound {p : Position} {w : String} :
    .identifier p (.text w) ∈ root.nodes → Blames root (.unbound (.text w) p)

/-- A regular subtree. -/
def Part (root e : Expr) : Prop := e.Regular Word64.Fits ∧ e ∈ root.nodes

/-- A task that belongs to a tree. -/
def Task.Sound (root : Expr) : Task → Prop
  | .eval e => Part root e
  | .applyUnary op => ∃ o : UnaryOp, op = .text o.text
  | .applyBinary p op =>
    ∃ o : ArithmeticOp, op = .text o.text ∧ ∃ l r, .binary p (.text o.text) l r ∈ root.nodes
  | .branch t e => Part root t ∧ Part root e
  | .shortCircuit _ right => Part root right
  | .truth => True

/-- Some tasks belong to a tree, and some values are numbers of sixty-four bits. -/
structure Sound (root : Expr) (work : List Task) (values : List Value) : Prop where
  tasks : ∀ t ∈ work, t.Sound root
  values : ∀ v ∈ values, v.Fits

section Step

variable {root e : Expr} {t : Task} {v : Value} {vs : List Value}

/-- A task that gives its value leaves no task. -/
theorem Sound.push (hv : v.Fits) (hvs : ∀ u ∈ vs, u.Fits) : Sound root [] (v :: vs) :=
  ⟨by simp, List.forall_mem_cons.mpr ⟨hv, hvs⟩⟩

theorem expand_sound (h : Part root e) :
    Yields (fun p => Sound root p.1 p.2) (Blames root) (expand e) := by
  obtain ⟨hregular, hmem⟩ := h
  have hsub := Expr.nodes_subset hmem
  cases e with
  | integer p v =>
    obtain ⟨n, rfl, hn⟩ := hregular
    exact .push ⟨n, rfl, hn⟩ (by simp)
  | identifier p v =>
    obtain ⟨w, rfl, -⟩ := hregular
    exact .unbound hmem
  | conditional p c t e =>
    obtain ⟨hc, ht, he⟩ := hregular
    have hc' : Part root c := ⟨hc, hsub (by simp [Expr.nodes])⟩
    have ht' : Part root t := ⟨ht, hsub (by simp [Expr.nodes])⟩
    have he' : Part root e := ⟨he, hsub (by simp [Expr.nodes])⟩
    exact ⟨by simp [Task.Sound, hc', ht', he'], by simp⟩
  | unary p op e =>
    obtain ⟨hop, he⟩ := hregular
    have he' : Part root e := ⟨he, hsub (by simp [Expr.nodes])⟩
    exact ⟨by simp [Task.Sound, hop, he'], by simp⟩
  | binary p op l r =>
    obtain ⟨⟨o, rfl⟩, hl, hr⟩ := hregular
    have hl' : Part root l := ⟨hl, hsub (by simp [Expr.nodes])⟩
    have hr' : Part root r := ⟨hr, hsub (by simp [Expr.nodes])⟩
    rw [expand, logicalOp?, BinaryOp.ofValue?_text]
    -- Only an operator on two values stays as a task, and it is the operator of this node.
    cases o with
    | logical o => exact ⟨by simp [Task.Sound, hl', hr'], by simp⟩
    | arithmetic o =>
      have hop : (Task.applyBinary p (.text o.text)).Sound root := ⟨o, rfl, l, r, hmem⟩
      refine ⟨fun t ht => ?_, by simp⟩
      simp only [List.mem_cons, List.not_mem_nil, or_false] at ht
      rcases ht with rfl | rfl | rfl
      · exact hl'
      · exact hr'
      · exact hop

/-- A task of a tree leaves tasks of the tree and numbers of sixty-four bits, or the tree is to
    blame. -/
theorem perform_sound (ht : t.Sound root) (hvs : ∀ v ∈ vs, v.Fits) (hn : t.operands ≤ vs.length) :
    Yields (fun p => Sound root p.1 p.2) (Blames root) (perform t vs) := by
  cases t with
  | eval e =>
    refine (expand_sound ht).map fun p hp => ⟨hp.tasks, fun v hv => ?_⟩
    rcases List.mem_append.mp hv with hv | hv
    · exact hp.values v hv
    · exact hvs v hv
  | applyUnary op =>
    rcases vs with _ | ⟨v, vs⟩
    · simp [Task.operands] at hn
    · obtain ⟨hv, hvs⟩ := List.forall_mem_cons.mp hvs
      obtain ⟨o, rfl⟩ := ht
      exact (applyUnary_yields o hv _).map fun w hw => .push hw hvs
  | applyBinary p op =>
    rcases vs with _ | ⟨r, _ | ⟨l, vs⟩⟩
    · simp [Task.operands] at hn
    · simp [Task.operands] at hn
    · obtain ⟨hr, hvs⟩ := List.forall_mem_cons.mp hvs
      obtain ⟨hl, hvs⟩ := List.forall_mem_cons.mp hvs
      obtain ⟨o, rfl, _, _, hmem⟩ := ht
      have happly := (applyBinary_yields p o hl hr).mono fun err herr => Blames.undefined hmem herr
      exact happly.map fun w hw => .push hw hvs
  | branch t e =>
    rcases vs with _ | ⟨v, vs⟩
    · simp [Task.operands] at hn
    · obtain ⟨-, hvs⟩ := List.forall_mem_cons.mp hvs
      have hbranch : Part root (if isFalse v then e else t) := by
        split
        · exact ht.2
        · exact ht.1
      exact ⟨by simpa [Task.Sound] using hbranch, hvs⟩
  | shortCircuit op right =>
    rcases vs with _ | ⟨v, vs⟩
    · simp [Task.operands] at hn
    · obtain ⟨-, hvs⟩ := List.forall_mem_cons.mp hvs
      rw [perform]
      cases hd : decided? op v with
      | some w => exact .push (fits_decided hd) hvs
      | none =>
        have hright : Part root right := ht
        exact ⟨by simp [Task.Sound, hright], hvs⟩
  | truth =>
    rcases vs with _ | ⟨v, vs⟩
    · simp [Task.operands] at hn
    · obtain ⟨-, hvs⟩ := List.forall_mem_cons.mp hvs
      exact .push (fits_truth _) hvs

end Step

/-- The machine is at work on a regular tree. -/
structure Machine.Sound (root : Expr) (m : Machine) : Prop extends
  Evaluation.Sound root m.work m.values where
  balanced : m.IsBalanced

namespace Machine

variable {root : Expr} {m : Machine}

theorem sound_start (h : root.Regular Word64.Fits) : (start root).Sound root :=
  ⟨⟨by simpa [start, Task.Sound, Part] using h, by simp [start]⟩, isBalanced_start root⟩

/-- A step keeps the machine at work on the tree, or the tree is to blame. -/
theorem Sound.step (h : m.Sound root) : Yields (Sound root) (Blames root) m.step := by
  obtain ⟨work, values⟩ := m
  cases work with
  | nil => exact h
  | cons t work =>
    obtain ⟨ht, hwork⟩ := List.forall_mem_cons.mp h.tasks
    have hperform := (perform_sound ht h.values h.balanced.1).and (perform_balanced h.balanced)
    refine hperform.map fun p hp => ⟨⟨fun u hu => ?_, hp.1.values⟩, hp.2⟩
    rcases List.mem_append.mp hu with hu | hu
    · exact hp.1.tasks u hu
    · exact hwork u hu

end Machine

/-- The evaluation of a regular tree gives a number of sixty-four bits, or the tree is to blame. -/
theorem evaluate_sound {e : Expr} (h : e.Regular Word64.Fits) :
    Yields Value.Fits (Blames e) (evaluate e) := by
  have hrun := Machine.run_yields (fun m hm => hm.step) (Machine.sound_start h)
  unfold evaluate
  cases hm : (Machine.start e).run with
  | error err =>
    rw [hm] at hrun
    exact hrun
  | ok m =>
    rw [hm] at hrun
    obtain ⟨v, hv⟩ := hrun.2.balanced.exists_value hrun.1
    have hfits := hrun.2.values v (by simp [hv])
    simpa [hv] using hfits

/-- The evaluation of the tree of a text gives a number of sixty-four bits, or the tree is to
    blame. -/
theorem evaluate_of_parseWithin {depth : Nat} {s : String} {e : Expr}
    (h : parseWithin depth s = .ok e) : Yields Value.Fits (Blames e) (evaluate e) := by
  have hregular := Expr.StandsIn.regular (standsIn_of_parseWithin h)
  exact evaluate_sound (hregular.mono fun n hn => Word64.fits_of_nonneg hn.1 hn.2)

end Evaluation

open Evaluation

/-- The tree of a text has operators with a meaning, names, numbers that fit and known positions;
    and its evaluation gives a number of sixty-four bits, or a node of the tree is to blame. -/
theorem parseWithin_sound {depth : Nat} {s : String} {e : Expr} (h : parseWithin depth s = .ok e) :
    e.Regular (fun n => 0 ≤ n ∧ n ≤ Word64.maxValue) ∧
    (∀ x ∈ e.nodes, 1 ≤ x.position.line ∧ 1 ≤ x.position.column) ∧
    Yields Value.Fits (Blames e) (evaluate e) := by
  have hstands := standsIn_of_parseWithin h
  refine ⟨Expr.StandsIn.regular hstands, fun x hx => ?_, evaluate_of_parseWithin h⟩
  exact (hstands x hx).one_le_position

/-- In `1 + 6 / (2 - 2)` the slash is to blame. -/
theorem parseWithin_sound_division : ∃ e, parseWithin 50 "1 + 6 / (2 - 2)" = .ok e ∧
    e.Regular (fun n => 0 ≤ n ∧ n ≤ Word64.maxValue) ∧
    evaluate e = .error (.divisionByZero "/" ⟨1, 7⟩) ∧
    Blames e (.divisionByZero "/" ⟨1, 7⟩) := by
  let e : Expr := .binary ⟨1, 3⟩ (.text "+") (.integer ⟨1, 1⟩ (.number 1))
    (.binary ⟨1, 7⟩ (.text "/") (.integer ⟨1, 5⟩ (.number 6))
      (.binary ⟨1, 12⟩ (.text "-") (.integer ⟨1, 10⟩ (.number 2)) (.integer ⟨1, 14⟩ (.number 2))))
  have h : parseWithin 50 "1 + 6 / (2 - 2)" = .ok e := by rfl
  have hvalue : evaluate e = .error (.divisionByZero "/" ⟨1, 7⟩) := by
    rw [evaluate, Machine.start, Machine.run_eval]
    rfl
  obtain ⟨hregular, -, hyields⟩ := parseWithin_sound h
  rw [hvalue] at hyields
  exact ⟨e, h, hregular, hvalue, hyields⟩

end ExprLang

import ExprLang.Proofs.Evaluation.Balance
import ExprLang.Proofs.Evaluation.Errands

/-! What an evaluation visits.

    The nodes that the machine begins to evaluate are those whose values are asked for
    (`Expr.demands`), each of them once, a node in front of its children and these from left to right
    (`Expr.visits_errands`). What is done for a node is its evaluation and no more than two tasks
    that waited for values (`Evaluation.forNode_errands`), so that the work is bounded by the nodes
    that are visited. In every state on the way the next task finds the values that it takes
    (`Evaluation.Tracked.Reaches.operands_le`). -/

namespace ExprLang

namespace Evaluation

/-- The value of a left operand leaves the right one to be evaluated. -/
def needsRight (op v : Value) : Bool :=
  match logicalOp? op with
  | some o => (decided? o v).isNone
  | none => true

end Evaluation

open Evaluation

/-- The tree has a value with a property. -/
def Expr.turnsOut (e : Expr) (p : Value → Bool) : Bool := e.eval.toOption.any p

/-- Whether the evaluation of a tree comes to the node at an address, before it fails if it does:
    to the root, to all that it comes to in a condition, in an operand of a sign and in a left
    operand, and once these have values, to all that it comes to in the branch that is selected and
    in a right operand that is not made needless by the left one. -/
def Expr.demands : Expr → Address → Bool
  | _, [] => true
  | .conditional _ c _ _, .condition :: a => c.demands a
  | .conditional _ c t _, .consequent :: a => c.turnsOut (!isFalse ·) && t.demands a
  | .conditional _ c _ e, .alternative :: a => c.turnsOut isFalse && e.demands a
  | .unary _ _ e, .operand :: a => e.demands a
  | .binary _ _ l _, .left :: a => l.demands a
  | .binary _ op l r, .right :: a => l.turnsOut (needsRight op) && r.demands a
  | _, _ => false

namespace Evaluation

/-- The address of the node that an errand begins to evaluate. -/
def Errand.visit? (i : Errand) : Option Address :=
  match i.task with
  | .eval _ => some i.owner
  | _ => none

/-- The addresses of the nodes that some errands begin to evaluate. -/
def visits (log : List Errand) : List Address := log.filterMap Errand.visit?

@[simp] theorem visits_nil : visits [] = [] := rfl

theorem visits_cons (i : Errand) (log : List Errand) :
    visits (i :: log) = i.visit?.toList ++ visits log := by
  rw [visits, List.filterMap_cons]
  cases i.visit? <;> rfl

@[simp] theorem visits_append (log more : List Errand) :
    visits (log ++ more) = visits log ++ visits more := List.filterMap_append

theorem Errand.visit?_under (r : Role) (i : Errand) :
    (i.under r).visit? = i.visit?.map (r :: ·) := by
  obtain ⟨t, a⟩ := i
  cases t <;> rfl

@[simp] theorem visits_under (r : Role) (log : List Errand) :
    visits (log.map (.under r)) = (visits log).map (r :: ·) := by
  rw [visits, visits, List.filterMap_map, List.map_filterMap]
  exact congrArg (List.filterMap · log) (funext (Errand.visit?_under r))

end Evaluation

namespace Expr

/-- What is demanded among the nodes below a child. -/
theorem filter_below {e x : Expr} {r : Role} {b : Bool}
    (h : ∀ a, e.demands (r :: a) = (b && x.demands a)) :
    (x.addresses.map (r :: ·)).filter e.demands =
      if b then (x.addresses.filter x.demands).map (r :: ·) else [] := by
  have hbelow : (e.demands ∘ fun a => r :: a) = fun a => b && x.demands a := funext h
  rw [List.filter_map, hbelow]
  cases b <;> simp

/-- The nodes are visited as they are demanded. -/
theorem visits_errands (e : Expr) : visits e.errands = e.addresses.filter e.demands := by
  induction e with
  | integer p v => rfl
  | identifier p n => rfl
  | conditional p c t e ihc iht ihe =>
    have hc := filter_below (e := .conditional p c t e) (x := c) (r := .condition) (b := true)
      fun _ => rfl
    have ht := filter_below (e := .conditional p c t e) (x := t) (r := .consequent) fun _ => rfl
    have he := filter_below (e := .conditional p c t e) (x := e) (r := .alternative) fun _ => rfl
    rw [addresses, List.filter_cons_of_pos rfl, List.filter_append, List.filter_append, hc, ht, he,
      ← ihc, ← iht, ← ihe, errands]
    unfold turnsOut
    cases c.eval with
    | error err => simp [visits_cons, Errand.visit?, Except.toOption]
    | ok v => cases hv : isFalse v <;> simp [visits_cons, Errand.visit?, Except.toOption, hv]
  | unary p op e ih =>
    have he := filter_below (e := .unary p op e) (x := e) (r := .operand) (b := true) fun _ => rfl
    rw [addresses, List.filter_cons_of_pos rfl, he, ← ih, errands]
    cases e.eval <;> simp [visits_cons, Errand.visit?]
  | binary p op l r ihl ihr =>
    have hl := filter_below (e := .binary p op l r) (x := l) (r := .left) (b := true) fun _ => rfl
    have hr := filter_below (e := .binary p op l r) (x := r) (r := .right) fun _ => rfl
    rw [addresses, List.filter_cons_of_pos rfl, List.filter_append, hl, hr, ← ihl, ← ihr, errands]
    unfold turnsOut needsRight
    cases l.eval with
    | error err => simp [visits_cons, Errand.visit?, Except.toOption]
    | ok v =>
      cases hop : logicalOp? op with
      | none => cases r.eval <;> simp [visits_cons, Errand.visit?, Except.toOption]
      | some o =>
        cases hd : decided? o v with
        | some w => simp [visits_cons, Errand.visit?, Except.toOption, hd]
        | none => cases r.eval <;> simp [visits_cons, Errand.visit?, Except.toOption, hd]

/-- What is demanded below a child of a node is demanded of the child. -/
theorem demands_cons {e : Expr} {r : Role} {a : Address} (h : e.demands (r :: a) = true) :
    ∃ x, e.children.lookup r = some x ∧ x.demands a = true := by
  cases e with
  | integer | identifier => simp [demands] at h
  | conditional p c t e =>
    cases r with
    | condition => exact ⟨c, rfl, h⟩
    | consequent => exact ⟨t, rfl, (Bool.and_eq_true_iff.mp h).2⟩
    | alternative => exact ⟨e, rfl, (Bool.and_eq_true_iff.mp h).2⟩
    | operand | left | right => simp [demands] at h
  | unary p op e =>
    cases r with
    | operand => exact ⟨e, rfl, h⟩
    | condition | consequent | alternative | left | right => simp [demands] at h
  | binary p op l r' =>
    cases r with
    | left => exact ⟨l, rfl, h⟩
    | right => exact ⟨r', rfl, (Bool.and_eq_true_iff.mp h).2⟩
    | condition | consequent | alternative | operand => simp [demands] at h

/-- What is demanded below a node is demanded of the node. -/
theorem demands_append {e : Expr} {a b : Address} (h : e.demands (a ++ b) = true) :
    ∃ x, e.at? a = some x ∧ x.demands b = true := by
  induction a generalizing e with
  | nil => exact ⟨e, at?_nil e, h⟩
  | cons r a ih =>
    obtain ⟨c, hc, hdemands⟩ := demands_cons h
    obtain ⟨x, hx, hb⟩ := ih hdemands
    exact ⟨x, by rw [at?_cons, hc]; exact hx, hb⟩

/-- Nothing is demanded in the branch that is not selected. -/
theorem not_demands_unselected {e c t f : Expr} {a : Address} {p : Position} {v : Value}
    (ha : e.at? a = some (.conditional p c t f)) (hc : c.eval = .ok v) (b : Address) :
    ¬ e.demands (a ++ (if isFalse v then .consequent else .alternative) :: b) := by
  intro h
  obtain ⟨x, hx, hb⟩ := demands_append h
  obtain rfl := Option.some.inj (ha.symm.trans hx)
  cases hv : isFalse v <;> simp [hv, demands, turnsOut, hc, Except.toOption] at hb

/-- Nothing is demanded in the right operand if the left one decides. -/
theorem not_demands_needless {e l r : Expr} {a : Address} {p : Position} {op v w : Value}
    {o : LogicalOp} (ha : e.at? a = some (.binary p op l r)) (hop : logicalOp? op = some o)
    (hl : l.eval = .ok v) (hd : decided? o v = some w) (b : Address) :
    ¬ e.demands (a ++ .right :: b) := by
  intro h
  obtain ⟨x, hx, hb⟩ := demands_append h
  obtain rfl := Option.some.inj (ha.symm.trans hx)
  simp [demands, turnsOut, needsRight, hl, hop, hd, Except.toOption] at hb

/-- A node that is visited is demanded. -/
theorem demands_of_mem_visits {e : Expr} {a : Address} (h : a ∈ visits e.errands) :
    e.demands a := by
  rw [visits_errands] at h
  exact (List.mem_filter.mp h).2

end Expr

namespace Evaluation

/-- The errands in the subtree that a role leads to. -/
def below : Option (Role × Expr) → List Errand
  | some c => c.2.errands.map (.under c.1)
  | none => []

/-- A task that is done for the root. -/
def own (t : Option Task) : List Errand := t.toList.map fun t => ⟨t, []⟩

/-- The course that the evaluation of a node takes: it may go into one child and then into another
    one, and behind each of them a task of the node may have waited. -/
structure Course (e : Expr) where
  first : Option (Role × Expr) := none
  between : Option Task := none
  second : Option (Role × Expr) := none
  last : Option Task := none
  errands_eq :
    e.errands = ⟨.eval e, []⟩ :: (below first ++ own between ++ (below second ++ own last))
  first_child : ∀ c ∈ first, e.children.lookup c.1 = some c.2 := by rintro c ⟨⟩ <;> rfl
  second_child : ∀ c ∈ second, e.children.lookup c.1 = some c.2 := by rintro c ⟨⟩ <;> rfl
  apart : ∀ c ∈ first, ∀ d ∈ second, c.1 ≠ d.1 := by rintro c ⟨⟩ d ⟨⟩ <;> simp
  waits : ∀ i ∈ own between ++ own last, i.visit? = none := by simp [own, Errand.visit?]

theorem exists_course (e : Expr) : Nonempty (Course e) := by
  cases e with
  | integer | identifier => exact ⟨{ errands_eq := rfl }⟩
  | conditional p c t e =>
    cases hc : c.eval with
    | error err =>
      exact ⟨{ first := some (.condition, c)
               errands_eq := by simp [Expr.errands, hc, below, own] }⟩
    | ok v =>
      cases hv : isFalse v
      · exact ⟨{ first := some (.condition, c), between := some (.branch t e)
                 second := some (.consequent, t)
                 errands_eq := by simp [Expr.errands, hc, hv, below, own] }⟩
      · exact ⟨{ first := some (.condition, c), between := some (.branch t e)
                 second := some (.alternative, e)
                 errands_eq := by simp [Expr.errands, hc, hv, below, own] }⟩
  | unary p op e =>
    cases he : e.eval with
    | error err =>
      exact ⟨{ first := some (.operand, e)
               errands_eq := by simp [Expr.errands, he, below, own] }⟩
    | ok v =>
      exact ⟨{ first := some (.operand, e), between := some (.applyUnary op)
               errands_eq := by simp [Expr.errands, he, below, own] }⟩
  | binary p op l r =>
    cases hl : l.eval with
    | error err =>
      exact ⟨{ first := some (.left, l)
               errands_eq := by simp [Expr.errands, hl, below, own] }⟩
    | ok v =>
      cases hop : logicalOp? op with
      | none =>
        cases hr : r.eval with
        | error err =>
          exact ⟨{ first := some (.left, l), second := some (.right, r)
                   errands_eq := by simp [Expr.errands, hl, hop, hr, below, own] }⟩
        | ok w =>
          exact ⟨{ first := some (.left, l), second := some (.right, r)
                   last := some (.applyBinary p op)
                   errands_eq := by simp [Expr.errands, hl, hop, hr, below, own] }⟩
      | some o =>
        cases hd : decided? o v with
        | some w =>
          exact ⟨{ first := some (.left, l), between := some (.shortCircuit o r)
                   errands_eq := by simp [Expr.errands, hl, hop, hd, below, own] }⟩
        | none =>
          cases hr : r.eval with
          | error err =>
            exact ⟨{ first := some (.left, l), between := some (.shortCircuit o r)
                     second := some (.right, r)
                     errands_eq := by simp [Expr.errands, hl, hop, hd, hr, below, own] }⟩
          | ok w =>
            exact ⟨{ first := some (.left, l), between := some (.shortCircuit o r)
                     second := some (.right, r), last := some .truth
                     errands_eq := by simp [Expr.errands, hl, hop, hd, hr, below, own] }⟩

section Owners

variable (r : Role) (a : Address)

/-- The errands for the node at an address. -/
def forNode (a : Address) (log : List Errand) : List Errand := log.filter fun i => i.owner == a

@[simp] theorem forNode_append (log more : List Errand) :
    forNode a (log ++ more) = forNode a log ++ forNode a more := List.filter_append log more

@[simp] theorem forNode_root (t : Task) (log : List Errand) :
    forNode [] (⟨t, []⟩ :: log) = ⟨t, []⟩ :: forNode [] log := rfl

@[simp] theorem forNode_root_of_cons (t : Task) (log : List Errand) :
    forNode (r :: a) (⟨t, []⟩ :: log) = forNode (r :: a) log := rfl

@[simp] theorem forNode_own_root (t : Option Task) : forNode [] (own t) = own t := by
  cases t <;> rfl

@[simp] theorem forNode_own_of_cons (t : Option Task) : forNode (r :: a) (own t) = [] := by
  cases t <;> rfl

@[simp] theorem forNode_below_root (o : Option (Role × Expr)) : forNode [] (below o) = [] := by
  cases o <;> simp [forNode, below, Errand.under]

theorem forNode_below (c : Role × Expr) :
    forNode (c.1 :: a) (below (some c)) = (forNode a c.2.errands).map (.under c.1) := by
  rw [forNode, below, List.filter_map]
  congr 1
  simp [forNode, Function.comp_def, Errand.under]

theorem forNode_below_of_ne {o : Option (Role × Expr)} (h : ∀ c ∈ o, c.1 ≠ r) :
    forNode (r :: a) (below o) = [] := by
  cases o with
  | none => rfl
  | some c => simp [forNode, below, Errand.under, h c rfl]

/-- The errands for a node below the root are those of one child, if there are any. -/
theorem forNode_cons (e : Expr) : forNode (r :: a) e.errands = [] ∨
    ∃ x, e.children.lookup r = some x ∧
      forNode (r :: a) e.errands = (forNode a x.errands).map (.under r) := by
  obtain ⟨course⟩ := exists_course e
  have hsplit : forNode (r :: a) e.errands =
      forNode (r :: a) (below course.first) ++ forNode (r :: a) (below course.second) := by
    rw [course.errands_eq]
    simp
  rw [hsplit]
  by_cases hfirst : ∃ c ∈ course.first, c.1 = r
  · obtain ⟨c, hc, rfl⟩ := hfirst
    refine .inr ⟨c.2, course.first_child c hc, ?_⟩
    rw [forNode_below_of_ne _ a fun d hd => (course.apart c hc d hd).symm, Option.mem_def.mp hc,
      forNode_below, List.append_nil]
  · rw [forNode_below_of_ne _ a fun c hc hr => hfirst ⟨c, hc, hr⟩, List.nil_append]
    by_cases hsecond : ∃ c ∈ course.second, c.1 = r
    · obtain ⟨c, hc, rfl⟩ := hsecond
      refine .inr ⟨c.2, course.second_child c hc, ?_⟩
      rw [Option.mem_def.mp hc, forNode_below]
    · exact .inl (forNode_below_of_ne _ a fun c hc hr => hsecond ⟨c, hc, hr⟩)

end Owners

/-- The errands for the node at an address, if there are any: its evaluation, and behind it no more
    than two that waited for values. -/
theorem forNode_errands (e : Expr) (a : Address) : forNode a e.errands = [] ∨
    ∃ x more, e.at? a = some x ∧ more.length ≤ 2 ∧ (∀ i ∈ more, i.visit? = none) ∧
      forNode a e.errands = ⟨.eval x, a⟩ :: more := by
  induction a generalizing e with
  | nil =>
    obtain ⟨course⟩ := exists_course e
    refine .inr ⟨e, own course.between ++ own course.last, Expr.at?_nil e, ?_, course.waits, ?_⟩
    · cases course.between <;> cases course.last <;> simp [own]
    · rw [course.errands_eq]
      simp
  | cons r a ih =>
    rcases forNode_cons r a e with hnone | ⟨c, hc, hchild⟩
    · exact .inl hnone
    · rcases ih c with hnone | ⟨x, more, hx, hlength, hmore, hat⟩
      · exact .inl (by rw [hchild, hnone]; rfl)
      · refine .inr ⟨x, more.map (.under r), ?_, by simpa using hlength, ?_, ?_⟩
        · rw [Expr.at?_cons, hc]
          exact hx
        · intro i hi
          obtain ⟨j, hj, rfl⟩ := List.mem_map.mp hi
          rw [Errand.visit?_under, hmore j hj, Option.map_none]
        · rw [hchild, hat]
          rfl

/-- No more than three errands are done for a node. -/
theorem length_forNode_le (e : Expr) (a : Address) : (forNode a e.errands).length ≤ 3 := by
  rcases forNode_errands e a with hnone | ⟨x, more, -, hmore, -, hat⟩
  · simp [hnone]
  · rw [hat, List.length_cons]
    omega

/-- Every errand is done for a node that is visited. -/
theorem owner_mem_visits {e : Expr} {i : Errand} (h : i ∈ e.errands) :
    i.owner ∈ visits e.errands := by
  have hi : i ∈ forNode i.owner e.errands := List.mem_filter.mpr ⟨h, beq_self_eq_true _⟩
  rcases forNode_errands e i.owner with hnone | ⟨x, more, -, -, -, hat⟩
  · simp [hnone] at hi
  · have hvisit : (⟨.eval x, i.owner⟩ : Errand) ∈ forNode i.owner e.errands := by simp [hat]
    exact List.mem_filterMap.mpr ⟨_, (List.mem_filter.mp hvisit).1, rfl⟩

/-- What an errand begins to evaluate is the node that it is done for. -/
theorem at?_of_eval_mem {e x : Expr} {a : Address} (h : ⟨.eval x, a⟩ ∈ e.errands) :
    e.at? a = some x := by
  have hx : (⟨.eval x, a⟩ : Errand) ∈ forNode a e.errands :=
    List.mem_filter.mpr ⟨h, beq_self_eq_true _⟩
  rcases forNode_errands e a with hnone | ⟨y, more, hy, -, hmore, hat⟩
  · simp [hnone] at hx
  · rw [hat] at hx
    rcases List.mem_cons.mp hx with heq | hx
    · cases heq
      exact hy
    · cases hmore _ hx

/-- Errands that are done for some nodes, and not for one of them too often, are not too many. -/
theorem length_le_of_forNode {n : Nat} {as : List Address} {log : List Errand}
    (hmem : ∀ i ∈ log, i.owner ∈ as) (hnode : ∀ a, (forNode a log).length ≤ n) :
    log.length ≤ n * as.length := by
  induction as generalizing log with
  | nil => simp [List.eq_nil_iff_forall_not_mem.mpr fun i hi => List.not_mem_nil (hmem i hi)]
  | cons a as ih =>
    have hrest : (log.filter fun i => !(i.owner == a)).length ≤ n * as.length := by
      refine ih (fun i hi => ?_) fun b => ?_
      · obtain ⟨hi, hne⟩ := List.mem_filter.mp hi
        exact (List.mem_cons.mp (hmem i hi)).resolve_left (by simpa using hne)
      · exact Nat.le_trans (List.filter_sublist.filter _).length_le (hnode b)
    have hsplit := List.length_eq_length_filter_add (l := log) fun i => i.owner == a
    have ha := hnode a
    rw [forNode] at ha
    rw [List.length_cons, Nat.mul_succ]
    omega

/-! ### The states on the way -/

/-- A step towards the end of a run. -/
theorem Machine.run_of_step {m m' : Machine} (hm : m.work ≠ []) (h : m.step = .ok m') :
    m.run = m'.run := by
  rw [run, dif_neg hm]
  split
  · rename_i err herr
    cases herr.symm.trans h
  · rename_i m'' hm''
    cases hm''.symm.trans h
    rfl

namespace Tracked.Reaches

variable {e : Expr} {past : List Errand} {m : Tracked}

/-- In every state there are as many values as the tasks will take. -/
theorem isBalanced (h : Reaches e past m) : m.machine.IsBalanced := by
  induction h with
  | start => exact Machine.isBalanced_start e
  | step _ _ hstep ih =>
    have hyields := ih.step
    rwa [machine_of_step hstep] at hyields

/-- No step lacks a value. -/
theorem step_ne_missingOperand (h : Reaches e past m) : m.step ≠ .error .missingOperand := by
  intro hstep
  have hyields := h.isBalanced.step
  rw [← machine_step, hstep] at hyields
  exact hyields rfl

/-- Every state has the end of the whole run. -/
theorem run_eq (h : Reaches e past m) : (Machine.start e).run = m.machine.run := by
  induction h with
  | start => rfl
  | step _ hm hstep ih =>
    exact ih.trans (Machine.run_of_step (by simp [machine, hm]) (machine_of_step hstep))

/-- The first task finds the values that it takes. -/
theorem operands_le (h : Reaches e past m) {i : Errand} {work : List Errand}
    (hm : m.work = i :: work) : i.task.operands ≤ m.values.length := by
  have hbalanced := h.isBalanced
  simp only [Machine.IsBalanced, machine, hm, List.map_cons, Balanced] at hbalanced
  exact hbalanced.1

/-- When nothing is left to be done, the value of the expression is the only one. -/
theorem values_eq (h : Reaches e past m) (hm : m.work = []) :
    ∃ v, m.values = [v] ∧ evaluate e = .ok v := by
  have hwork : m.machine.work = [] := by simp [machine, hm]
  obtain ⟨v, hv⟩ := h.isBalanced.exists_value hwork
  have hrun : (Machine.start e).run = .ok m.machine := by
    rw [h.run_eq, Machine.run, dif_pos hwork]
  exact ⟨v, hv, by rw [evaluate, hrun]; simp only [hv]⟩

/-- An error on the way is that of the evaluation. -/
theorem evaluate_eq_error (h : Reaches e past m) {err : EvalError} (hm : m.step = .error err) :
    evaluate e = .error err := by
  have hstep : m.machine.step = .error err := by rw [← machine_step, hm]; rfl
  have hrun : (Machine.start e).run = .error err := by
    rw [h.run_eq, Machine.run]
    split
    · rename_i hwork
      rw [Machine.step, hwork] at hstep
      cases hstep
    · split
      · rename_i err' herr
        cases herr.symm.trans hstep
        rfl
      · rename_i m' hm'
        cases hm'.symm.trans hstep
  rw [evaluate, hrun]

end Tracked.Reaches

/-- The machine that knows for whom it works takes the steps of the machine. Its errands begin with
    the nodes that are demanded, in the order in which they stand in the tree and each of them once;
    no node of a branch that is not selected and none of a right operand that is not needed is among
    them. There are no more than three errands for each of these nodes and none for another one. In
    every state on the way there are the values that the next task takes; the first error is that of
    the evaluation, and if all is done, the result is the only value that is left. -/
theorem evaluate_visits (e : Expr) :
    let log := (Tracked.start e).log
    ((Tracked.start e).machine = Machine.start e ∧
      ∀ m : Tracked, m.step.map Tracked.machine = m.machine.step) ∧
    (visits log = e.addresses.filter e.demands ∧ (visits log).Nodup ∧
      ∀ a x, ⟨.eval x, a⟩ ∈ log → e.at? a = some x) ∧
    (∀ a p c t f v, e.at? a = some (.conditional p c t f) → c.eval = .ok v →
      ∀ b, a ++ (if isFalse v then .consequent else .alternative) :: b ∉ visits log) ∧
    (∀ a p op o l r v w, e.at? a = some (.binary p op l r) → logicalOp? op = some o →
      l.eval = .ok v → decided? o v = some w → ∀ b, a ++ .right :: b ∉ visits log) ∧
    ((∀ i ∈ log, i.owner ∈ visits log) ∧ (∀ a, (forNode a log).length ≤ 3) ∧
      log.length ≤ 3 * (visits log).length) ∧
    ∀ past m, Tracked.Reaches e past m →
      log = past ++ m.log ∧ m.step ≠ .error .missingOperand ∧
      (∀ i work, m.work = i :: work → i.task.operands ≤ m.values.length) ∧
      (∀ err, m.step = .error err → evaluate e = .error err) ∧
      (m.work = [] → ∃ v, m.values = [v] ∧ evaluate e = .ok v) := by
  intro log
  have hlog : log = e.errands := Tracked.log_start e
  rw [hlog]
  refine ⟨⟨rfl, Tracked.machine_step⟩, ⟨e.visits_errands, ?_, fun a x => at?_of_eval_mem⟩, ?_, ?_,
    ⟨fun i => owner_mem_visits, length_forNode_le e, ?_⟩, fun past m h => ?_⟩
  · rw [Expr.visits_errands]
    exact e.nodup_addresses.filter _
  · intro a p c t f v ha hc b hb
    exact Expr.not_demands_unselected ha hc b (Expr.demands_of_mem_visits hb)
  · intro a p op o l r v w ha hop hl hd b hb
    exact Expr.not_demands_needless ha hop hl hd b (Expr.demands_of_mem_visits hb)
  · exact length_le_of_forNode (fun i => owner_mem_visits) (length_forNode_le e)
  · rw [← hlog]
    exact ⟨h.log_eq, h.step_ne_missingOperand, fun i work => h.operands_le,
      fun err => h.evaluate_eq_error, h.values_eq⟩

/-- In `if 0 then 1 / 0 else 2 || x end` neither the division nor the name is visited. -/
theorem evaluate_visits_choice :
    let division : Expr := .binary ⟨1, 13⟩ (.text "/") (.integer ⟨1, 11⟩ (.number 1))
      (.integer ⟨1, 15⟩ (.number 0))
    let either : Expr := .binary ⟨1, 24⟩ (.text "||") (.integer ⟨1, 22⟩ (.number 2))
      (.identifier ⟨1, 27⟩ (.text "x"))
    let tree : Expr := .conditional ⟨1, 1⟩ (.integer ⟨1, 4⟩ (.number 0)) division either
    let log := (Tracked.start tree).log
    visits log = [[], [.condition], [.alternative], [.alternative, .left]] ∧
    [.consequent] ∉ visits log ∧ [.alternative, .right] ∉ visits log ∧
    ∃ past m, Tracked.Reaches tree past m ∧ m.work = [] ∧
      ∃ v, m.values = [v] ∧ evaluate tree = .ok v := by
  intro division either tree log
  obtain ⟨-, ⟨hvisits, -⟩, hunselected, hneedless, -, hstates⟩ := evaluate_visits tree
  refine ⟨hvisits.trans (by decide), ?_, ?_, ?_⟩
  · exact hunselected [] _ _ _ _ _ rfl rfl []
  · exact hneedless [.alternative] _ _ .or _ _ _ _ rfl rfl rfl rfl []
  · have hreaches : Tracked.Reaches tree _ ⟨[], [truth true]⟩ :=
      (((((Tracked.Reaches.start.step rfl rfl).step rfl rfl).step rfl rfl).step rfl rfl).step
        rfl rfl).step rfl rfl
    exact ⟨_, _, hreaches, rfl, (hstates _ _ hreaches).2.2.2.2 rfl⟩

end Evaluation
end ExprLang

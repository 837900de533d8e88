import ExprLang.Expr.Surface

/-! Walks from the bottom up are recursions.

    A function on trees that gets its result out of those for the children can be computed by a walk
    from the bottom up (`assemble_eq`). What carries the walk is said of its tasks and of the stack
    (`Finishes`): a subtree that is entered comes down to its own result on top, and a node is built
    where the results of its children lie on top. So the text of a tree on one line, which is made
    by such a walk, always exists and is what the recursion says. -/

namespace ExprLang.Expr

variable {β : Type} {f : Expr → List β → β} {g : Expr → β} {final : β}

/-- With these results on the stack, the tasks come down to the one result `final`. A subtree leaves
    what `g` says of it. A node finds on top what `g` says of its children, the last one first, and
    leaves its own result in their place. -/
def Finishes (g : Expr → β) (final : β) : List Task → List β → Prop
  | [], results => results = [final]
  | .enter e :: work, results => Finishes g final work (g e :: results)
  | .build e :: work, results =>
    ∃ below, results = (e.children.map fun c => g c.2).reverse ++ below ∧
      Finishes g final work (g e :: below)

/-- Subtrees that are entered one by one leave their results in reverse. -/
theorem finishes_enter_all (cs : List (Role × Expr)) (work : List Task) (results : List β) :
    Finishes g final (cs.map (fun c => .enter c.2) ++ work) results ↔
      Finishes g final work ((cs.map fun c => g c.2).reverse ++ results) := by
  induction cs generalizing results with
  | nil => exact Iff.rfl
  | cons c cs ih =>
    rw [List.map_cons, List.cons_append, Finishes, ih, List.map_cons, List.reverse_cons,
      List.append_assoc]
    exact Iff.rfl

/-- To go into a node is to go into its children and then to build it. -/
theorem Finishes.unfold {e : Expr} {work : List Task} {results : List β}
    (h : Finishes g final (.enter e :: work) results) :
    Finishes g final (Task.unfold e ++ work) results := by
  rw [Task.unfold, List.append_assoc, finishes_enter_all]
  exact ⟨results, rfl, h⟩

section Recursion

variable (hg : ∀ e, g e = f e (e.children.map fun c => g c.2))
include hg

/-- A node is built from the results on top. -/
theorem Finishes.build {e : Expr} {work : List Task} {new below : List β}
    (h : Finishes g final (.build e :: work) (new ++ below)) (hnew : new.length = e.children.length) :
    Finishes g final work (f e new.reverse :: below) := by
  obtain ⟨below', heq, hwork⟩ := h
  obtain ⟨rfl, rfl⟩ := List.append_inj heq (by simpa using hnew)
  rwa [List.reverse_reverse, ← hg]

/-- A walk that finishes with a result does not lack any on its way. -/
theorem assembleAll_of_finishes {work : List Task} {results : List β}
    (h : Finishes g final work results) : assembleAll f work results = some [final] := by
  fun_induction assembleAll f work results with
  | case1 results => exact congrArg some h
  | case2 results e work ih => exact ih h.unfold
  | case3 results e work arity hlt =>
    obtain ⟨below, rfl, -⟩ := h
    refine absurd hlt (Nat.not_lt.mpr ?_)
    simp [arity]
  | case4 results e work arity hlt ih =>
    refine ih (Finishes.build hg ?_ ?_)
    · rwa [List.take_append_drop]
    · exact List.length_take_of_le (Nat.not_lt.mp hlt)

/-- A function that gets its result out of those for the children is computed by a walk. -/
theorem assemble_eq (e : Expr) : e.assemble f = some (g e) := by
  have hwalk : assembleAll f [.enter e] [] = some [g e] := assembleAll_of_finishes hg rfl
  rw [assemble, hwalk]

end Recursion

/-- The text of a node is made from the texts of its children. -/
theorem surface_eq_surfaceNode (e : Expr) :
    e.surface = surfaceNode e (e.children.map fun c => c.2.surface) := by
  cases e <;> rfl

theorem surfaceText?_eq (e : Expr) : e.surfaceText? = some e.surface :=
  assemble_eq surface_eq_surfaceNode e

end ExprLang.Expr

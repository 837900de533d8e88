import ExprLang.Expr.Basic

/-! Walks over a tree without recursion on it.

    `preorder` lists the nodes of a tree, a parent in front of its children, each with its number,
    its depth and its place in its parent. `assemble` builds a result from the bottom up: the
    results of the children of a node lie on a stack when the node itself is built. Both keep the
    part of the tree that is still to be walked as a list of tasks. -/

namespace ExprLang.Expr

/-- A node, how deep it lies, and the number of its parent with the role that it plays there. -/
structure Place where
  node : Expr
  depth : Nat
  parent : Option (Nat × Role)
  deriving DecidableEq, Repr

/-- A node on its turn in a walk. -/
structure Visit extends Place where
  index : Nat
  deriving DecidableEq, Repr

/-- The places of the children of a node whose turn it is. -/
def Visit.below (v : Visit) : List Place :=
  v.node.children.map fun c => ⟨c.2, v.depth + 1, some (v.index, c.1)⟩

/-- How many nodes lie at or below some places. -/
def Place.total (places : List Place) : Nat := sizes (places.map fun p => p.node)

theorem Visit.total_below (v : Visit) : Place.total v.below + 1 = v.node.size := by
  rw [size_eq_children, Place.total, Visit.below, List.map_map]
  rfl

/-- Visits some places and all that lies below them, counting on from `index`. -/
def visitAll (index : Nat) : List Place → List Visit
  | [] => []
  | p :: work =>
    let v : Visit := ⟨p, index⟩
    v :: visitAll (index + 1) (v.below ++ work)
termination_by places => Place.total places
decreasing_by
  have := Visit.total_below ⟨p, index⟩
  simp only [Place.total, List.map_append, sizes_append, List.map_cons, sizes] at *
  omega

/-- The nodes of a tree, each in front of its children, which follow from left to right. -/
def preorder (e : Expr) : List Visit := visitAll 0 [⟨e, 0, none⟩]

/-- A task of a walk from the bottom up: to go into a subtree, or to build the result of a node
    whose children have theirs. -/
inductive Task where
  | enter (e : Expr)
  | build (e : Expr)
  deriving DecidableEq, Repr

/-- A bound on the steps that a task can still cause. -/
def Task.weight : Task → Nat
  | enter e => 2 * e.size
  | build _ => 1

/-- A bound on the steps that some tasks can still cause. -/
def Task.total : List Task → Nat
  | [] => 0
  | t :: tasks => t.weight + total tasks

theorem Task.total_append (tasks more : List Task) :
    Task.total (tasks ++ more) = Task.total tasks + Task.total more := by
  induction tasks with
  | nil => exact (Nat.zero_add _).symm
  | cons t tasks ih => rw [List.cons_append, total, total, ih, Nat.add_assoc]

/-- The tasks that going into a node comes down to. -/
def Task.unfold (e : Expr) : List Task := (e.children.map fun c => enter c.2) ++ [build e]

theorem Task.total_unfold (e : Expr) : Task.total (Task.unfold e) < 2 * e.size := by
  cases e <;> simp only [unfold, total, children, List.map_cons, List.map_nil, List.nil_append,
    List.cons_append, weight, size] <;> omega

/-- Does some tasks on a stack of results, or finds too few results there. -/
def assembleAll {β : Type} (f : Expr → List β → β) : List Task → List β → Option (List β)
  | [], results => some results
  | .enter e :: work, results => assembleAll f (Task.unfold e ++ work) results
  | .build e :: work, results =>
    let arity := e.children.length
    if results.length < arity then none
    else assembleAll f work (f e (results.take arity).reverse :: results.drop arity)
termination_by tasks => Task.total tasks
decreasing_by
  · have := Task.total_unfold e
    simp only [Task.total_append, Task.total, Task.weight] at *
    omega
  · simp only [Task.total, Task.weight]
    omega

/-- The result that `f` builds for a tree out of those of its children. -/
def assemble {β : Type} (f : Expr → List β → β) (e : Expr) : Option β :=
  match assembleAll f [.enter e] [] with
  | some [result] => some result
  | _ => none

end ExprLang.Expr

import ExprLang.Expr.Walk
import ExprLang.Proofs.Expr.Provenance

/-! What a walk from the top comes across.

    A walk takes one turn for each node at or below the places that it starts from, and numbers them
    without a gap (`index_visitAll`). A place is done with, and all that lies below it, before the
    next one begins (`visitAll_append`). A node that is no starting place has its turn behind its
    parent (`below_or_mem`), so in a walk over a whole tree all nodes but the first have one
    (`exists_parent_of_mem_tail`). -/

namespace ExprLang.Expr

/-- What holds of a node if it holds of its children holds of every tree. -/
theorem children_induction {P : Expr → Prop} (h : ∀ e, (∀ c ∈ e.children, P c.2) → P e) (e : Expr) :
    P e := by
  induction e with
  | integer | identifier => exact h _ (by simp [children])
  | conditional _ _ _ _ ihc iht ihe => exact h _ (by simp [children, ihc, iht, ihe])
  | unary _ _ _ ih => exact h _ (by simp [children, ih])
  | binary _ _ _ _ ihl ihr => exact h _ (by simp [children, ihl, ihr])

theorem child_mem_nodes {e : Expr} {c : Role × Expr} (h : c ∈ e.children) : c.2 ∈ e.nodes := by
  cases e <;> simp only [children, List.mem_cons, List.not_mem_nil, or_false] at h
  · rcases h with rfl | rfl | rfl <;> simp [nodes]
  · subst h
    simp [nodes]
  · rcases h with rfl | rfl <;> simp [nodes]

namespace Place

theorem total_cons (p : Place) (places : List Place) :
    total (p :: places) = p.node.size + total places := rfl

theorem total_append (ps qs : List Place) : total (ps ++ qs) = total ps + total qs := by
  rw [total, List.map_append, sizes_append]
  rfl

end Place

theorem Visit.mem_below {v : Visit} {p : Place} :
    p ∈ v.below ↔ ∃ c ∈ v.node.children, p = ⟨c.2, v.depth + 1, some (v.index, c.1)⟩ := by
  simp [below, eq_comm]

section Walk

variable {index : Nat} {places : List Place} {v : Visit}

theorem visitAll_nil (index : Nat) : visitAll index [] = [] := by rw [visitAll]

theorem visitAll_cons (index : Nat) (p : Place) (work : List Place) :
    visitAll index (p :: work) =
      ⟨p, index⟩ :: visitAll (index + 1) (Visit.below ⟨p, index⟩ ++ work) := by rw [visitAll]

/-- One turn takes a node off what lies at or below the places to go to. -/
theorem total_below_append (p : Place) (index : Nat) (work : List Place) :
    Place.total (Visit.below ⟨p, index⟩ ++ work) + 1 = Place.total (p :: work) := by
  have h := Visit.total_below ⟨p, index⟩
  rw [Place.total_append, Place.total_cons, ← h]
  omega

/-- The turns are numbered one by one. -/
theorem index_visitAll (index : Nat) (places : List Place) :
    (visitAll index places).map Visit.index = List.range' index (Place.total places) := by
  fun_induction visitAll index places with
  | case1 index => rfl
  | case2 index p work v ih =>
    rw [List.map_cons, ih, ← total_below_append p index work, List.range'_succ]

theorem length_visitAll (index : Nat) (places : List Place) :
    (visitAll index places).length = Place.total places := by
  have h := congrArg List.length (index_visitAll index places)
  rwa [List.length_map, List.length_range'] at h

theorem index_le_of_mem (h : v ∈ visitAll index places) : index ≤ v.index := by
  have hmem : v.index ∈ (visitAll index places).map Visit.index := List.mem_map_of_mem h
  rw [index_visitAll, List.mem_range'_1] at hmem
  exact hmem.1

/-- The first places are done with before the others begin. -/
theorem visitAll_append (index : Nat) (ps qs : List Place) : visitAll index (ps ++ qs) =
    visitAll index ps ++ visitAll (index + Place.total ps) qs := by
  fun_induction visitAll index ps with
  | case1 index => rfl
  | case2 index p work v ih =>
    have hturn : Place.total (v.below ++ work) + 1 = Place.total (p :: work) :=
      total_below_append p index work
    have hcount : index + 1 + Place.total (v.below ++ work) = index + Place.total (p :: work) := by
      omega
    rw [List.cons_append, visitAll_cons, ← List.append_assoc, ih, hcount, List.cons_append]

/-- A turn is for a starting place, or for a child of a node that had its turn before. -/
theorem below_or_mem (h : v ∈ visitAll index places) : v.toPlace ∈ places ∨
    ∃ u ∈ visitAll index places, v.toPlace ∈ u.below ∧ u.index < v.index := by
  fun_induction visitAll index places with
  | case1 index => exact absurd h List.not_mem_nil
  | case2 index p work u ih =>
    rcases List.mem_cons.mp h with rfl | hrest
    · exact .inl List.mem_cons_self
    · rcases ih hrest with hplace | ⟨w, hw, hbelow, hlt⟩
      · rcases List.mem_append.mp hplace with hbelow | hwork
        · exact .inr ⟨u, List.mem_cons_self, hbelow, index_le_of_mem hrest⟩
        · exact .inl (List.mem_cons_of_mem _ hwork)
      · exact .inr ⟨w, List.mem_cons_of_mem _ hw, hbelow, hlt⟩

/-- Every node that has a turn lies at or below a starting place. -/
theorem mem_nodes_of_mem (h : v ∈ visitAll index places) : ∃ p ∈ places, v.node ∈ p.node.nodes := by
  fun_induction visitAll index places with
  | case1 index => exact absurd h List.not_mem_nil
  | case2 index p work u ih =>
    rcases List.mem_cons.mp h with rfl | hrest
    · exact ⟨p, List.mem_cons_self, self_mem_nodes _⟩
    · obtain ⟨q, hq, hnode⟩ := ih hrest
      rcases List.mem_append.mp hq with hbelow | hwork
      · obtain ⟨c, hc, rfl⟩ := Visit.mem_below.mp hbelow
        exact ⟨p, List.mem_cons_self, nodes_subset (child_mem_nodes hc) hnode⟩
      · exact ⟨q, List.mem_cons_of_mem _ hwork, hnode⟩

end Walk

/-! ### Whole trees -/

section Preorder

variable {e : Expr} {v : Visit}

/-- The root has its turn first. -/
theorem preorder_eq (e : Expr) : e.preorder =
    ⟨⟨e, 0, none⟩, 0⟩ :: visitAll 1 (Visit.below ⟨⟨e, 0, none⟩, 0⟩) := by
  rw [preorder, visitAll_cons, List.append_nil]

theorem index_preorder (e : Expr) : e.preorder.map Visit.index = List.range e.size := by
  rw [preorder, index_visitAll, List.range_eq_range']
  rfl

theorem length_preorder (e : Expr) : e.preorder.length = e.size := length_visitAll 0 _

theorem mem_nodes_of_mem_preorder (h : v ∈ e.preorder) : v.node ∈ e.nodes := by
  obtain ⟨p, hp, hnode⟩ := mem_nodes_of_mem h
  rwa [List.mem_singleton.mp hp] at hnode

/-- Every node but the root has its turn as a child of a node that had its turn before. -/
theorem exists_parent_of_mem_tail (h : v ∈ e.preorder.tail) :
    ∃ u ∈ e.preorder, v.toPlace ∈ u.below ∧ u.index < v.index := by
  rw [preorder_eq, List.tail_cons] at h
  rw [preorder_eq]
  rcases below_or_mem h with hroot | ⟨u, hu, hbelow, hlt⟩
  · exact ⟨_, List.mem_cons_self, hroot, index_le_of_mem h⟩
  · exact ⟨u, List.mem_cons_of_mem _ hu, hbelow, hlt⟩

end Preorder
end ExprLang.Expr

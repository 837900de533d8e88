import Mathlib.Data.List.Nodup
import ExprLang.Expr.Basic

/-! Addresses of nodes.

    Two nodes of a tree may look the same, so a node is told by the way that leads to it from the
    root: the roles that it passes. The addresses of a tree are listed in the order in which a walk
    from the top comes across the nodes, each of them once (`nodup_addresses`). -/

namespace ExprLang

/-- The roles on the way from the root of a tree to a node. -/
abbrev Address := List Role

namespace Expr

/-- The node at an address, if the way does not leave the tree. -/
def at? : Expr → Address → Option Expr
  | e, [] => some e
  | e, r :: a => (e.children.lookup r).bind fun c => c.at? a

/-- The addresses of all nodes, a parent in front of its children, which follow from left to
    right. -/
def addresses : Expr → List Address
  | .integer .. | .identifier .. => [[]]
  | .conditional _ c t e =>
    [] :: (c.addresses.map (.condition :: ·) ++ t.addresses.map (.consequent :: ·) ++
      e.addresses.map (.alternative :: ·))
  | .unary _ _ e => [] :: e.addresses.map (.operand :: ·)
  | .binary _ _ l r => [] :: (l.addresses.map (.left :: ·) ++ r.addresses.map (.right :: ·))

@[simp] theorem at?_nil (e : Expr) : e.at? [] = some e := by rw [at?]

theorem at?_cons (e : Expr) (r : Role) (a : Address) :
    e.at? (r :: a) = (e.children.lookup r).bind fun c => c.at? a := by rw [at?]

/-- No way to a node of one child is a way to a node of another one. -/
theorem disjoint_map_cons {r r' : Role} (h : r ≠ r') (as bs : List Address) :
    (as.map (r :: ·)).Disjoint (bs.map (r' :: ·)) := by
  intro a ha hb
  obtain ⟨a', -, rfl⟩ := List.mem_map.mp ha
  obtain ⟨b', -, heq⟩ := List.mem_map.mp hb
  exact h (List.cons.inj heq).1.symm

theorem nodup_map_cons {r : Role} {as : List Address} (h : as.Nodup) : (as.map (r :: ·)).Nodup :=
  h.map (List.cons_injective)

/-- Every node is listed once. -/
theorem nodup_addresses (e : Expr) : e.addresses.Nodup := by
  induction e with
  | integer | identifier => exact List.nodup_singleton _
  | conditional p c t e ihc iht ihe =>
    have hct := (nodup_map_cons ihc).append (nodup_map_cons iht)
      (disjoint_map_cons (by decide : Role.condition ≠ .consequent) _ _)
    have hcte := hct.append (nodup_map_cons ihe) (List.disjoint_append_left.mpr
      ⟨disjoint_map_cons (by decide : Role.condition ≠ .alternative) _ _,
        disjoint_map_cons (by decide : Role.consequent ≠ .alternative) _ _⟩)
    exact List.nodup_cons.mpr ⟨by simp, hcte⟩
  | unary p op e ih => exact List.nodup_cons.mpr ⟨by simp, nodup_map_cons ih⟩
  | binary p op l r ihl ihr =>
    have hlr := (nodup_map_cons ihl).append (nodup_map_cons ihr)
      (disjoint_map_cons (by decide : Role.left ≠ .right) _ _)
    exact List.nodup_cons.mpr ⟨by simp, hlr⟩

end Expr
end ExprLang

import ExprLang.Expr.Walk

/-! Expressions on one line.

    A tree is written as an expression in which every child that is itself a choice or an operator
    between two operands stands in parentheses, so that the grouping is seen. -/

namespace ExprLang.Expr

/-- A node that stands in parentheses when it is a child. -/
def isCompound : Expr → Bool
  | conditional .. | binary .. => true
  | _ => false

/-- The text of a child in its parent. -/
def wrapped (child : Expr) (text : String) : String :=
  if child.isCompound then "(" ++ text ++ ")" else text

/-- The text of a node, given the texts of its children in the order of evaluation. -/
def surfaceNode (e : Expr) (texts : List String) : String :=
  match e, texts with
  | conditional _ c t e, [tc, tt, te] =>
    "if " ++ wrapped c tc ++ " then " ++ wrapped t tt ++ " else " ++ wrapped e te ++ " end"
  | unary _ op e, [te] => op.plain ++ wrapped e te
  | binary _ op l r, [tl, tr] => wrapped l tl ++ " " ++ op.plain ++ " " ++ wrapped r tr
  | e, _ => e.label

/-- The text of a tree, by recursion on it. -/
def surface : Expr → String
  | integer _ v | identifier _ v => v.plain
  | conditional _ c t e =>
    "if " ++ wrapped c c.surface ++ " then " ++ wrapped t t.surface ++ " else " ++
      wrapped e e.surface ++ " end"
  | unary _ op e => op.plain ++ wrapped e e.surface
  | binary _ op l r => wrapped l l.surface ++ " " ++ op.plain ++ " " ++ wrapped r r.surface

/-- The text of a tree, built from the bottom up without recursion on it. -/
def surfaceText? (e : Expr) : Option String := e.assemble surfaceNode

end ExprLang.Expr

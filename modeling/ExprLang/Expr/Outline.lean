import ExprLang.Expr.Walk

/-! The outline of a tree.

    An outline has one line for each node, in the order of the walk from the top, and shows on it
    what the node says about itself. Each level is indented by two blanks more than the one above;
    a level below zero is not indented. -/

namespace ExprLang.Expr

/-- The blanks in front of a line at a level. -/
def indentation (level : Int) : String := String.ofList (List.replicate (2 * level.toNat) ' ')

/-- The lines of an outline whose first level is `indent`. -/
def outlineLines (indent : Int) (e : Expr) : List String :=
  e.preorder.map fun v => indentation (indent + v.depth) ++ v.node.label

/-- The outline of a tree whose first level is `indent`. -/
def outline (indent : Int) (e : Expr) : String := "\n".intercalate (e.outlineLines indent)

end ExprLang.Expr

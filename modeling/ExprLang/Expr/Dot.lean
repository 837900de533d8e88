import ExprLang.Dot.Source
import ExprLang.Expr.Walk

/-! Trees as graphs.

    Every node of a tree is a node of the graph, numbered in the order of the walk from the top: an
    ellipse for a leaf and a box for any other. The edge from its parent follows it and is labelled
    with the role that the node plays there. -/

namespace ExprLang.Expr

/-- The shape of a node. -/
def shape (e : Expr) : String := if e.isLeaf then "ellipse" else "box"

/-- The statements for a node on its turn: the node, and the edge to it unless it is the root. -/
def Visit.statements (v : Visit) : List Dot.Statement :=
  .node v.index v.node.label [("shape", v.node.shape), ("tooltip", v.node.position.text)] ::
    match v.parent with
    | none => []
    | some (parent, role) => [.edge parent v.index role.edgeLabel]

/-- The statements for the graph as a whole; an empty title is no title. -/
def graphStatements (title : String) : List Dot.Statement :=
  .attributes "graph" [("rankdir", "TB")] ::
    (if title = "" then [] else [.attributes "graph" [("label", title), ("labelloc", "t")]]) ++
    [.attributes "node" [("fontname", "monospace"), ("shape", "box")]]

/-- The statements of the graph of a tree. -/
def dotStatements (title : String) (e : Expr) : List Dot.Statement :=
  graphStatements title ++ e.preorder.flatMap Visit.statements

/-- The source of the graph of a tree. -/
def dot (title : String) (e : Expr) : String := Dot.source (e.dotStatements title)

end ExprLang.Expr

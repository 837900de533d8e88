import ExprLang.Failure

/-! Graphs, and what draws them.

    A graph is a list of statements: attributes for all nodes or for the graph, a node, an edge. Nodes
    are told apart by numbers.

    A renderer makes a drawing of a graph and writes it to a file. It is no part of a session, which
    gives it the statements of a graph, a path and a format, and is told where the drawing is or why
    there is none. -/

namespace ExprLang

/-- A statement of a graph. -/
inductive Dot.Statement where
  | attributes (target : String) (attributes : List (String × String))
  | node (index : Nat) (label : String) (attributes : List (String × String))
  | edge (tail head : Nat) (label : String)
  deriving DecidableEq, Repr

/-- What draws graphs: it gives the path of the drawing. There may be no format to draw in. -/
structure Renderer (m : Type → Type) where
  draw : List Dot.Statement → String → Option String → m (Except Failure String)

end ExprLang

import ExprLang.Position
import ExprLang.Value

/-! Expression trees.

    A node is an integer, a name, a choice between two branches, or an operator with its operands,
    and it carries a position. Integers, names and operators are values of any kind: what has a
    meaning is for evaluation to say. The children of a node come in the order of evaluation, each
    with the role it plays. -/

namespace ExprLang

/-- An expression. -/
inductive Expr where
  | integer (position : Position) (value : Value)
  | identifier (position : Position) (name : Value)
  | conditional (position : Position) (condition consequent alternative : Expr)
  | unary (position : Position) (operator : Value) (operand : Expr)
  | binary (position : Position) (operator : Value) (left right : Expr)
  deriving DecidableEq, Repr

/-- The part that a child plays in its parent. -/
inductive Role where
  | condition | consequent | alternative | operand | left | right
  deriving DecidableEq, Repr

/-- The field of a parent that holds a child in this role. -/
def Role.field : Role → String
  | .condition => "condition"
  | .consequent => "consequent"
  | .alternative => "alternative"
  | .operand => "operand"
  | .left => "left"
  | .right => "right"

/-- The label of an edge to a child in this role. -/
def Role.edgeLabel : Role → String
  | .condition => "cond"
  | .consequent => "then"
  | .alternative => "else"
  | .operand => ""
  | .left => "left"
  | .right => "right"

/-- The kinds of nodes. -/
inductive NodeKind where
  | integer | identifier | conditional | unary | binary
  deriving DecidableEq, Repr

namespace NodeKind

/-- Every kind of node, in the order in which they are listed. -/
def all : List NodeKind := [integer, identifier, conditional, unary, binary]

/-- The name of a kind of node. -/
def name : NodeKind → String
  | integer => "INTEGER"
  | identifier => "IDENTIFIER"
  | conditional => "IF"
  | unary => "UNARY"
  | binary => "BINARY"

end NodeKind

namespace Expr

/-- Where a node stands. -/
def position : Expr → Position
  | integer p _ | identifier p _ | conditional p _ _ _ | unary p _ _ | binary p _ _ _ => p

/-- The kind of a node. -/
def kind : Expr → NodeKind
  | integer .. => .integer
  | identifier .. => .identifier
  | conditional .. => .conditional
  | unary .. => .unary
  | binary .. => .binary

/-- The children of a node in the order of evaluation, each with its role. -/
def children : Expr → List (Role × Expr)
  | integer .. | identifier .. => []
  | conditional _ c t e => [(.condition, c), (.consequent, t), (.alternative, e)]
  | unary _ _ e => [(.operand, e)]
  | binary _ _ l r => [(.left, l), (.right, r)]

/-- What a node carries besides its position and its children: its number, its name or its
    operator. A choice carries nothing. -/
def value : Expr → Value
  | integer _ v | identifier _ v | unary _ v _ | binary _ v _ _ => v
  | conditional .. => .absent

/-- What a node says about itself. -/
def label : Expr → String
  | conditional .. => "if"
  | e => e.value.plain

/-- A node without children. -/
def isLeaf : Expr → Bool
  | integer .. | identifier .. => true
  | _ => false

/-- How many nodes a tree has. -/
def size : Expr → Nat
  | integer .. | identifier .. => 1
  | conditional _ c t e => c.size + t.size + e.size + 1
  | unary _ _ e => e.size + 1
  | binary _ _ l r => l.size + r.size + 1

theorem size_pos (e : Expr) : 0 < e.size := by cases e <;> simp only [size] <;> omega

/-- How many nodes some trees have together. -/
def sizes : List Expr → Nat
  | [] => 0
  | e :: es => e.size + sizes es

theorem sizes_append (es fs : List Expr) : sizes (es ++ fs) = sizes es + sizes fs := by
  induction es with
  | nil => exact (Nat.zero_add _).symm
  | cons e es ih => rw [List.cons_append, sizes, sizes, ih, Nat.add_assoc]

/-- A tree has one node more than its children together. -/
theorem size_eq_children (e : Expr) : e.size = sizes (e.children.map fun c => c.2) + 1 := by
  cases e <;> simp only [size, children, List.map_cons, List.map_nil, sizes] <;> omega

end Expr
end ExprLang

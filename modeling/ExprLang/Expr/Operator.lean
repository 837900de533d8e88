import ExprLang.Value

/-! Operators of expressions.

    A tree holds the spelling of its operators. The spellings below are the ones that have a
    meaning; every other value is an operator that no operand can be given to. -/

namespace ExprLang

/-- An operator in front of one operand. -/
inductive UnaryOp where
  | negate
  | invert
  deriving DecidableEq, Repr

namespace UnaryOp

/-- Every operator in front of one operand. -/
def all : List UnaryOp := [negate, invert]

/-- The spelling of an operator. -/
def text : UnaryOp → String
  | negate => "-"
  | invert => "!"

/-- The operator that a text spells. -/
def ofText? : String → Option UnaryOp
  | "-" => some negate
  | "!" => some invert
  | _ => none

/-- The operator that a value spells. -/
def ofValue? : Value → Option UnaryOp
  | .text s => ofText? s
  | _ => none

theorem ofText?_text (op : UnaryOp) : ofText? op.text = some op := by cases op <;> rfl

theorem ofValue?_text (op : UnaryOp) : ofValue? (.text op.text) = some op := ofText?_text op

end UnaryOp

/-- An operator whose right operand counts only when the left one does not decide. -/
inductive LogicalOp where
  | or
  | and
  deriving DecidableEq, Repr

/-- An operator on the values of two operands. -/
inductive ArithmeticOp where
  | equal
  | notEqual
  | less
  | add
  | subtract
  | multiply
  | divide
  | remainder
  deriving DecidableEq, Repr

namespace ArithmeticOp

/-- The spelling of an operator on two values. -/
def text : ArithmeticOp → String
  | equal => "=="
  | notEqual => "!="
  | less => "<"
  | add => "+"
  | subtract => "-"
  | multiply => "*"
  | divide => "/"
  | remainder => "%"

end ArithmeticOp

/-- An operator between two operands. -/
inductive BinaryOp where
  | logical (op : LogicalOp)
  | arithmetic (op : ArithmeticOp)
  deriving DecidableEq, Repr

namespace BinaryOp

/-- Every operator between two operands, from the loosest to the tightest. -/
def all : List BinaryOp :=
  [logical .or, logical .and, arithmetic .equal, arithmetic .notEqual, arithmetic .less,
   arithmetic .add, arithmetic .subtract, arithmetic .multiply, arithmetic .divide,
   arithmetic .remainder]

/-- The spelling of an operator. -/
def text : BinaryOp → String
  | logical .or => "||"
  | logical .and => "&&"
  | arithmetic op => op.text

/-- The operator that a text spells. -/
def ofText? : String → Option BinaryOp
  | "||" => some (logical .or)
  | "&&" => some (logical .and)
  | "==" => some (arithmetic .equal)
  | "!=" => some (arithmetic .notEqual)
  | "<" => some (arithmetic .less)
  | "+" => some (arithmetic .add)
  | "-" => some (arithmetic .subtract)
  | "*" => some (arithmetic .multiply)
  | "/" => some (arithmetic .divide)
  | "%" => some (arithmetic .remainder)
  | _ => none

/-- The operator that a value spells. -/
def ofValue? : Value → Option BinaryOp
  | .text s => ofText? s
  | _ => none

theorem ofText?_text (op : BinaryOp) : ofText? op.text = some op := by
  rcases op with op | op <;> cases op <;> rfl

theorem ofValue?_text (op : BinaryOp) : ofValue? (.text op.text) = some op := ofText?_text op

end BinaryOp
end ExprLang

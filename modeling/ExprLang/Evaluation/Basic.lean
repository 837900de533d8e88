import ExprLang.Expr.Basic
import ExprLang.Expr.Operator
import ExprLang.Word64

/-! The value of an expression.

    Operands are evaluated from left to right and the first error ends the evaluation. A choice
    evaluates one of its branches, and a logical operator evaluates its right operand only when the
    left one does not decide. An operator without a meaning is an error once its operands have
    values; a name never has a value. Operators compute with numbers. Of a value that is no number
    it is only said whether it equals another one, and it never equals zero. -/

namespace ExprLang

/-- Why an expression has no value. -/
inductive EvalError where
  | divisionByZero (operator : String) (position : Position)
  | overflow (operator : String) (position : Position)
  | unbound (name : Value) (position : Position)
  | unsupportedUnary (operator : Value)
  | unsupportedBinary (operator : Value)
  | unfitOperand (operand : Value)
  | unfitOperands (operator : ArithmeticOp) (left right : Value)
  | textTooLong
  | missingOperand
  deriving DecidableEq, Repr

namespace Evaluation

/-- Truth as a value. -/
def truth (b : Bool) : Value := .number (Word64.ofBool b)

/-- A value that counts as false. -/
def isFalse (v : Value) : Bool := v == .number 0

/-- The value of an operator in front of an operand. -/
def applyUnary (op v : Value) : Except EvalError Value :=
  match UnaryOp.ofValue? op, v with
  | some .negate, .number n => .ok (.number (Word64.wrap (-n)))
  | some .negate, v => .error (.unfitOperand v)
  | some .invert, v => .ok (truth (isFalse v))
  | none, _ => .error (.unsupportedUnary op)

/-- Refuses the divisions that have no result of sixty-four bits. -/
def checkDivisor (p : Position) (op : ArithmeticOp) (n d : Int) : Except EvalError Unit :=
  if d = 0 then .error (.divisionByZero op.text p)
  else if n = Word64.minValue ∧ d = -1 then .error (.overflow op.text p)
  else .ok ()

/-- The number that an operator gives between two numbers. -/
def combine (p : Position) (op : ArithmeticOp) (l r : Int) : Except EvalError Int :=
  match op with
  | .add => .ok (Word64.wrap (l + r))
  | .subtract => .ok (Word64.wrap (l - r))
  | .multiply => .ok (Word64.wrap (l * r))
  | .divide => (checkDivisor p op l r).map fun _ => Word64.quotient l r
  | .remainder => (checkDivisor p op l r).map fun _ => Word64.remainder l r
  | .less => .ok (Word64.ofBool (l < r))
  | .equal => .ok (Word64.ofBool (l == r))
  | .notEqual => .ok (Word64.ofBool (l != r))

/-- What is wrong with a product of two values of which one is no number. A text is repeated as
    often as the number says, which fails if the result is longer than any text can be, and then
    the result is no number. -/
def productError (l r : Value) : EvalError :=
  match l, r with
  | .text s, .number n | .number n, .text s =>
    if Word64.maxValue < s.length * n.toNat then .textTooLong else .unfitOperands .multiply l r
  | l, r => .unfitOperands .multiply l r

/-- The value of an operator between two values of which one is no number. -/
def compare (p : Position) (op : ArithmeticOp) (l r : Value) : Except EvalError Value :=
  match op with
  | .equal => .ok (truth (l == r))
  | .notEqual => .ok (truth (l != r))
  | .divide | .remainder =>
    .error (if isFalse r then .divisionByZero op.text p else .unfitOperands op l r)
  | .multiply => .error (productError l r)
  | op => .error (.unfitOperands op l r)

/-- The value of an operator between two values. -/
def applyBinary (p : Position) (op l r : Value) : Except EvalError Value :=
  match BinaryOp.ofValue? op with
  | some (.arithmetic a) =>
    match l, r with
    | .number m, .number n => (combine p a m n).map .number
    | l, r => compare p a l r
  | some (.logical _) | none => .error (.unsupportedBinary op)

/-- The logical operator that a value spells. -/
def logicalOp? (op : Value) : Option LogicalOp :=
  match BinaryOp.ofValue? op with
  | some (.logical l) => some l
  | _ => none

/-- What a logical operator gives on account of its left operand alone. -/
def decided? : LogicalOp → Value → Option Value
  | .and, l => if isFalse l then some (truth false) else none
  | .or, l => if isFalse l then none else some (truth true)

end Evaluation

/-- The value of an expression, by recursion on the tree. -/
def Expr.eval : Expr → Except EvalError Value
  | .integer _ v => .ok v
  | .identifier p n => .error (.unbound n p)
  | .conditional _ c t e => do
    let v ← c.eval
    if Evaluation.isFalse v then e.eval else t.eval
  | .unary _ op e => do
    let v ← e.eval
    Evaluation.applyUnary op v
  | .binary p op l r => do
    let v ← l.eval
    match Evaluation.logicalOp? op with
    | some logical =>
      match Evaluation.decided? logical v with
      | some w => pure w
      | none => do
        let w ← r.eval
        pure (Evaluation.truth (!Evaluation.isFalse w))
    | none => do
      let w ← r.eval
      Evaluation.applyBinary p op v w

end ExprLang

import ExprLang.Diagnostic
import ExprLang.Evaluation.Machine
import ExprLang.Files.Fault
import ExprLang.Expr.Parser

/-! Failures.

    Most of what goes wrong is a fault of the source and has a diagnostic. The rest are limits and
    misuses: operators without a meaning in a tree built by hand, a second token put back, a run of
    digits that is too long to convert, a path that no file can have. What makes a file for the
    program may fail too, and run out of memory or refuse a format. -/

namespace ExprLang

/-- Why something was not done. -/
inductive Failure where
  | reported (diagnostic : Diagnostic)
  | unsupportedUnary (operator : Value)
  | unsupportedBinary (operator : Value)
  | unfitOperand (operand : Value)
  | unfitOperands (operator : ArithmeticOp) (left right : Value)
  | textTooLong
  | outOfMemory
  | slotOccupied (occupied : SlotOccupied)
  | missingOperand
  | tooManyDigits (count : Nat)
  | noDigits
  | noCharacter
  | file (fault : Files.Fault)
  | unknownFormat (name : String) (known : List String)
  | noFormat
  | tooDeep
  deriving DecidableEq, Repr

/-- The wording for an operator between two values that it cannot compute with. A number cannot be
    joined to a text: not to the left operand of a sum, and not to what a product repeats. -/
def unfitText (op : ArithmeticOp) (l r : Value) : String :=
  match op, l, r with
  | .less, l, r =>
    "'<' not supported between instances of '" ++ l.sort ++ "' and '" ++ r.sort ++ "'"
  | .divide, l, r | .remainder, l, r =>
    "bad operand type for abs(): '" ++ (if l.isNumber then r else l).sort ++ "'"
  | .add, .text _, .number _ | .multiply, .text _, .number _ | .multiply, .number _, .text _ =>
    "can only concatenate str (not \"int\") to str"
  | op, l, r =>
    "unsupported operand type(s) for " ++ op.text ++ ": '" ++ l.sort ++ "' and '" ++ r.sort ++ "'"

/-- The wording of a failure. -/
def Failure.message : Failure → String
  | reported d => d.render
  | unsupportedUnary op => "Unsupported unary operator: " ++ op.plain
  | unsupportedBinary op => "Unsupported binary operator: " ++ op.plain
  | unfitOperand v => "bad operand type for unary -: '" ++ v.sort ++ "'"
  | unfitOperands op l r => unfitText op l r
  | textTooLong => "repeated string is too long"
  | outOfMemory => ""
  | slotOccupied o =>
    "lookahead slot already holds " ++ o.held.display ++ "; cannot push back " ++ o.pushed.display
  | missingOperand => "pop from empty list"
  | tooManyDigits n =>
    "Exceeds the limit (" ++ toString Lexer.maxDigits ++
      " digits) for integer string conversion: value has " ++ toString n ++
      " digits; use sys.set_int_max_str_digits() to increase the limit"
  | noDigits => "invalid literal for int() with base 10: ''"
  | noCharacter => "sequence item 0: expected str instance, NoneType found"
  | file fault => fault.message
  | unknownFormat name known =>
    "unknown format: " ++ Text.quoted name ++ " (must be one of [" ++
      ", ".intercalate (known.map Text.quoted) ++ "])"
  | noFormat => "'list' object has no attribute 'lower'"
  | tooDeep => "expression nested too deeply to process"

/-- The failure to read a token. -/
def LexError.failure : LexError → Failure
  | unexpectedChar c p => .reported ⟨.unexpectedChar (String.singleton c), p⟩
  | malformedNumber s fault p => .reported ⟨.malformedNumber s fault.text, p⟩
  | tooManyDigits n => .tooManyDigits n
  | noDigits => .noDigits
  | noCharacter => .noCharacter

/-- The failure to read an expression. -/
def ParseError.failure : ParseError → Failure
  | lexical e => e.failure
  | unexpected t production => .reported (.ofToken t production.text)
  | slotOccupied o => .slotOccupied o
  | tooDeep => .tooDeep

/-- The failure to evaluate an expression. -/
def EvalError.failure : EvalError → Failure
  | divisionByZero op p => .reported ⟨.divisionByZero op, p⟩
  | overflow op p => .reported ⟨.overflow op, p⟩
  | unbound name p => .reported ⟨.unbound name, p⟩
  | unsupportedUnary op => .unsupportedUnary op
  | unsupportedBinary op => .unsupportedBinary op
  | unfitOperand v => .unfitOperand v
  | unfitOperands op l r => .unfitOperands op l r
  | textTooLong => .textTooLong
  | missingOperand => .missingOperand

section MapError

variable {ε ε' α : Type} (g : ε → ε')

theorem mapError_ok (a : α) : (Except.ok a).mapError g = .ok a := rfl

theorem mapError_error (e : ε) : (Except.error e : Except ε α).mapError g = .error (g e) := rfl

end MapError

/-- The value of the expression that a text spells, within a budget of depth. -/
def evaluateTextWithin (depth : Nat) (s : String) : Except Failure Value := do
  let e ← (parseWithin depth s).mapError ParseError.failure
  (Evaluation.evaluate e).mapError EvalError.failure

/-- A text that spells an expression has its value, or fails as it does. -/
theorem evaluateTextWithin_of_ok {depth : Nat} {s : String} {e : Expr}
    (h : parseWithin depth s = .ok e) :
    evaluateTextWithin depth s = (Evaluation.evaluate e).mapError EvalError.failure := by
  rw [evaluateTextWithin, h]
  rfl

/-- A text that spells none fails as its reading does. -/
theorem evaluateTextWithin_of_error {depth : Nat} {s : String} {err : ParseError}
    (h : parseWithin depth s = .error err) : evaluateTextWithin depth s = .error err.failure := by
  rw [evaluateTextWithin, h]
  rfl

/-- The value of the expression that a text spells. -/
def evaluateText (s : String) : Except Failure Value := evaluateTextWithin Parser.maxDepth s

end ExprLang

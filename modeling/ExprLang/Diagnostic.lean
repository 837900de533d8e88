import ExprLang.Token.Basic

/-! Diagnostics.

    A diagnostic says what is wrong with a source and where. It belongs to the stage that found it.
    The position stands in front of the message if it is known. -/

namespace ExprLang

/-- The stages that find something wrong. -/
inductive Stage where
  | general | source | lexical | syntactic | evaluation
  deriving DecidableEq, Repr

/-- The word for a stage in front of a diagnostic. -/
def Stage.text : Stage → String
  | .general => "Simplang"
  | .source => "IO"
  | .lexical => "Lexical"
  | .syntactic => "Syntax"
  | .evaluation => "Evaluation"

/-- What is wrong. -/
inductive Cause where
  | other (stage : Stage) (message : String)
  | unreadable (path reason : String)
  | unexpectedChar (text : String)
  | malformedNumber (text reason : String)
  | unexpectedToken (token : Token) (production : String)
  | divisionByZero (operator : String)
  | overflow (operator : String)
  | unbound (name : Value)
  deriving DecidableEq, Repr

namespace Cause

/-- The stage that finds a cause. -/
def stage : Cause → Stage
  | other s _ => s
  | unreadable .. => .source
  | unexpectedChar _ | malformedNumber .. => .lexical
  | unexpectedToken .. => .syntactic
  | divisionByZero _ | overflow _ | unbound _ => .evaluation

/-- The wording of a cause. -/
def message : Cause → String
  | other _ m => m
  | unreadable path reason => "cannot read '" ++ path ++ "': " ++ reason
  | unexpectedChar s => "unexpected character " ++ Text.quoted s
  | malformedNumber s reason => "malformed number '" ++ s ++ "': " ++ reason
  | unexpectedToken t production => "unexpected " ++ t.describe ++ " in " ++ production
  | divisionByZero op => "division by zero in '" ++ op ++ "'"
  | overflow op => "result of '" ++ op ++ "' does not fit in 64 bits"
  | unbound name => "unbound identifier '" ++ name.plain ++ "'"

end Cause

/-- What is wrong and where. -/
structure Diagnostic where
  cause : Cause
  position : Position
  deriving DecidableEq, Repr

namespace Diagnostic

/-- A token that does not fit is reported where it stands. -/
def ofToken (t : Token) (production : String) : Diagnostic :=
  ⟨.unexpectedToken t production, t.position⟩

/-- The message, behind its position if that is known. -/
def render (d : Diagnostic) : String :=
  if d.position.isKnown then d.position.text ++ ": " ++ d.cause.message else d.cause.message

/-- The message behind the stage that found it. -/
def line (d : Diagnostic) : String := d.cause.stage.text ++ " error: " ++ d.render

end Diagnostic
end ExprLang

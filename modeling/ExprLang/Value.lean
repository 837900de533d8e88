import ExprLang.Text.Quoted

/-! Values.

    A token carries a value, and the node that is read from it carries the same one: a number, a
    text or nothing. A token that was read from a text carries a number if it is an integer and its
    spelling otherwise; a token built by hand may carry anything. An integer node evaluates to the
    value that it carries. -/

namespace ExprLang

/-- A number, a text or nothing. -/
inductive Value where
  | absent
  | number (n : Int)
  | text (s : String)
  deriving DecidableEq, Repr

namespace Value

/-- A value as plain text. -/
def plain : Value → String
  | absent => "None"
  | number n => toString n
  | text s => s

/-- A value as plain text, but with a text between quotes. -/
def quoted : Value → String
  | text s => Text.quoted s
  | v => v.plain

/-- The word for what a value is. -/
def sort : Value → String
  | absent => "NoneType"
  | number _ => "int"
  | text _ => "str"

/-- A value that is a number. -/
def isNumber : Value → Bool
  | number _ => true
  | _ => false

end Value
end ExprLang

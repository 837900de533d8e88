import ExprLang.Text.Printable

/-! Quoted texts.

    A text inside a message stands between single quotes, or between double quotes when it holds a
    single quote and no double quote. The quote in use and the backslash are written after a
    backslash; tab, newline and carriage return have letters of their own; any other character that
    is not printable is written as its code point in hexadecimal, in the shortest of the three
    widths that holds it. -/

namespace ExprLang.Text

/-- The digits of `n` in base sixteen, in lower case, with zeros in front up to `width` digits. -/
def hexadecimal (width n : Nat) : List Char :=
  let digits := Nat.toDigits 16 n
  List.replicate (width - digits.length) '0' ++ digits

/-- A code point written after a backslash, in two, four or eight digits. -/
def escapeCode (n : Nat) : List Char :=
  if n < 0x100 then '\\' :: 'x' :: hexadecimal 2 n
  else if n < 0x10000 then '\\' :: 'u' :: hexadecimal 4 n
  else '\\' :: 'U' :: hexadecimal 8 n

/-- One character as it stands between quotes `q`. -/
def escapeChar (q c : Char) : List Char :=
  if c = q ∨ c = '\\' then ['\\', c]
  else if c = '\t' then ['\\', 't']
  else if c = '\n' then ['\\', 'n']
  else if c = '\r' then ['\\', 'r']
  else if isPrintable c then [c]
  else escapeCode c.toNat

/-- The quote around a text. -/
def quoteMark (cs : List Char) : Char :=
  if cs.contains '\'' && !cs.contains '"' then '"' else '\''

/-- A text between quotes. -/
def quoted (s : String) : String :=
  let q := quoteMark s.toList
  String.ofList (q :: s.toList.flatMap (escapeChar q) ++ [q])

end ExprLang.Text

import ExprLang.Dot

/-! Graphs as DOT source.

    Each statement has its line. A value is written bare when it is a word or a number of the
    language, or a text in angle brackets; any other value stands in double quotes, and a quote
    inside gets a backslash unless it has one. Behind the end of a word, number or bracket one
    newline may still follow. -/

namespace ExprLang.Dot

/-- The words that have a meaning of their own in the language. -/
def keywords : List String := ["node", "edge", "graph", "digraph", "subgraph", "strict"]

/-- A text without the newline that may end it. -/
def dropFinalNewline (cs : List Char) : List Char :=
  if cs.getLast? = some '\n' then cs.dropLast else cs

/-- A text in angle brackets. -/
def isBracketed (cs : List Char) : Bool :=
  let inner := fun (ds : List Char) => ds.head? == some '<' && ds.getLast? == some '>'
  inner cs || inner (dropFinalNewline cs)

/-- A letter or an underscore, then letters, digits and underscores. -/
def isWord : List Char → Bool
  | [] => false
  | c :: cs => (c.isAlpha || c == '_') && cs.all fun d => d.isAlphanum || d == '_'

/-- Digits with a point in front, behind or between, or without a point. -/
def isUnsigned (cs : List Char) : Bool :=
  let whole := cs.takeWhile Char.isDigit
  match cs.dropWhile Char.isDigit with
  | [] => !whole.isEmpty
  | '.' :: ds => ds.all Char.isDigit && !(whole.isEmpty && ds.isEmpty)
  | _ => false

/-- A number with or without a minus sign. -/
def isNumeral : List Char → Bool
  | '-' :: cs => isUnsigned cs
  | cs => isUnsigned cs

/-- A word or a number. -/
def isBare (cs : List Char) : Bool :=
  let fits := fun (ds : List Char) => isWord ds || isNumeral ds
  fits cs || fits (dropFinalNewline cs)

/-- The characters between double quotes; `escaped` says whether an odd number of backslashes
    stands in front. -/
def escape : (escaped : Bool) → List Char → List Char
  | _, [] => []
  | escaped, c :: cs =>
    if c = '"' ∧ escaped = false then '\\' :: '"' :: escape false cs
    else c :: escape (c == '\\' && !escaped) cs

/-- A value as it is written. -/
def quote (s : String) : String :=
  let cs := s.toList
  if isBracketed cs then s
  else if isBare cs && !keywords.contains s.toLower then s
  else String.ofList ('"' :: escape false cs ++ ['"'])

/-- The name of a node. -/
def nodeName (index : Nat) : String := "n" ++ toString index

/-- Attributes in the order given, between brackets. -/
def attributeList (attributes : List (String × String)) : String :=
  " [" ++ " ".intercalate (attributes.map fun a => a.1 ++ "=" ++ quote a.2) ++ "]"

/-- The line of a statement, without the tab in front. -/
def Statement.text : Statement → String
  | attributes target attrs => target ++ attributeList attrs
  | node index label attrs => nodeName index ++ attributeList (("label", label) :: attrs)
  | edge tail head label =>
    nodeName tail ++ " -> " ++ nodeName head ++ attributeList [("label", label)]

/-- The source of a directed graph. -/
def source (statements : List Statement) : String :=
  "digraph \x7b\n" ++ String.join (statements.map fun s => "\t" ++ s.text ++ "\n") ++ "\x7d\n"

end ExprLang.Dot

import ExprLang.Value

/-! Structured values and how they are written.

    A value is nothing, an integer, a text or an object, whose fields keep their order. A value is
    written in ASCII alone, either on one line or with every field on a line of its own. Objects nest only
    so deep in a written text; a writer that meets a deeper one stops there, and what it has
    written by then stays written. -/

namespace ExprLang

/-- A structured value. -/
inductive Json where
  | null
  | integer (value : Int)
  | text (value : String)
  | object (fields : List (String × Json))
  deriving Repr

namespace Json

/-- A plain value as a structured one. -/
def ofValue : Value → Json
  | .absent => null
  | .number n => integer n
  | .text s => text s

/-- The character as it stands in a written text. -/
def escapeChar (c : Char) : List Char :=
  if c = '"' ∨ c = '\\' then ['\\', c]
  else if c = '\n' then ['\\', 'n']
  else if c = '\r' then ['\\', 'r']
  else if c = '\t' then ['\\', 't']
  else if c = '\x08' then ['\\', 'b']
  else if c = '\x0c' then ['\\', 'f']
  else if 0x20 ≤ c.toNat ∧ c.toNat < 0x7F then [c]
  else if c.toNat < 0x10000 then '\\' :: 'u' :: Text.hexadecimal 4 c.toNat
  else
    let n := c.toNat - 0x10000
    '\\' :: 'u' :: Text.hexadecimal 4 (0xD800 + n / 0x400) ++
      '\\' :: 'u' :: Text.hexadecimal 4 (0xDC00 + n % 0x400)

/-- A text as it is written. -/
def quoted (s : String) : String := String.ofList ('"' :: s.toList.flatMap escapeChar ++ ['"'])

/-- An object lies deeper than any writer goes. -/
inductive TooDeep where
  | tooDeep
  deriving DecidableEq, Repr

/-- An action that adds to a written text, whether it fails or not. -/
abbrev Writer := EStateM TooDeep String

/-- Adds a text. -/
def put (s : String) : Writer Unit := modify (· ++ s)

/-- How objects are laid out: what stands behind the opening and before the closing brace, and
    between two fields, at a level of nesting. -/
structure Layout where
  opening : Nat → String
  closing : Nat → String
  between : Nat → String

/-- All on one line. -/
def Layout.compact : Layout := ⟨fun _ => "", fun _ => "", fun _ => ", "⟩

/-- A new line with two blanks for each level. -/
def newLine (level : Nat) : String := String.ofList ('\n' :: List.replicate (2 * level) ' ')

/-- Every field on a line of its own. -/
def Layout.indented : Layout :=
  ⟨fun level => newLine (level + 1), newLine, fun level => "," ++ newLine (level + 1)⟩

mutual

/-- Writes a value that stands at a level of nesting, with room for `depth` objects in one
    another. -/
def write (layout : Layout) (level : Nat) : Nat → Json → Writer Unit
  | _, null => put "null"
  | _, integer n => put (toString n)
  | _, text s => put (quoted s)
  | 0, object _ => throw .tooDeep
  | _ + 1, object [] => put "\x7b\x7d"
  | depth + 1, object (f :: fs) => do
    put ("\x7b" ++ layout.opening level)
    writeFields layout level depth f fs
    put (layout.closing level ++ "\x7d")

/-- Writes the fields of an object. -/
def writeFields (layout : Layout) (level depth : Nat) :
    String × Json → List (String × Json) → Writer Unit
  | (key, value), rest => do
    put (quoted key ++ ": ")
    write layout (level + 1) depth value
    match rest with
    | [] => pure ()
    | f :: fs => do
      put (layout.between level)
      writeFields layout level depth f fs

end

/-- How many objects may lie in one another in a written text. -/
def maxDepth : Nat := 990

/-- What is written of a value, and whether that is all of it. -/
def render (layout : Layout) (value : Json) : String × Bool :=
  match write layout 0 maxDepth value "" with
  | .ok _ s => (s, true)
  | .error _ s => (s, false)

/-- A value on one line, unless it is too deep. -/
def compact? (value : Json) : Option String :=
  match render .compact value with
  | (s, true) => some s
  | (_, false) => none

end Json
end ExprLang

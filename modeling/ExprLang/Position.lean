/-! Positions in a source text.

    A position names a character by its line and column, both counted from one. A tree built by hand
    may carry any pair of integers; `0:0` says that the place is unknown. Only a newline starts a
    new line, so the position after a text is a left fold over its characters. -/

namespace ExprLang

/-- A line and a column. -/
structure Position where
  line : Int
  column : Int
  deriving DecidableEq, Repr, Inhabited

namespace Position

/-- The position of the first character of a text. -/
def start : Position := ⟨1, 1⟩

/-- The position of something that stands in no text. -/
def unknown : Position := ⟨0, 0⟩

/-- The position of what follows character `c`, which itself stands at `p`. -/
def after (p : Position) (c : Char) : Position :=
  if c = '\n' then ⟨p.line + 1, 1⟩ else ⟨p.line, p.column + 1⟩

/-- The position of what follows the characters `cs`, the first of which stands at `p`. -/
def afterAll (p : Position) (cs : List Char) : Position := cs.foldl after p

/-- A position is shown in front of a message when neither of its numbers is zero. -/
def isKnown (p : Position) : Bool := p.line != 0 && p.column != 0

/-- The text `line:column`. -/
def text (p : Position) : String := toString p.line ++ ":" ++ toString p.column

@[simp] theorem afterAll_nil (p : Position) : p.afterAll [] = p := rfl

@[simp] theorem afterAll_cons (p : Position) (c : Char) (cs : List Char) :
    p.afterAll (c :: cs) = (p.after c).afterAll cs := rfl

theorem afterAll_append (p : Position) (cs ds : List Char) :
    p.afterAll (cs ++ ds) = (p.afterAll cs).afterAll ds := List.foldl_append

end Position
end ExprLang

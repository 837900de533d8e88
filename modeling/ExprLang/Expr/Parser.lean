import ExprLang.Expr.Basic
import ExprLang.Token.Stream

/-! Reading expressions.

        expression := unary (binary-operator unary)*
        unary      := ("-" | "!")* primary
        primary    := integer | identifier | "(" expression ")"
                    | "if" expression "then" expression "else" expression "end"

    Operators between operands are read by climbing their precedences: a right operand takes only
    the operators that bind tighter than the one before it, so that operators of one precedence
    group from the left. A choice is closed by its last keyword and can stand wherever an operand
    can. The first token that cannot go on is an error and stays in the slot of the stream.

    Every reader that is entered takes one from a budget of depth; runs of operators, operands and
    prefixes are loops and take nothing. -/

namespace ExprLang

/-- What was being read when a token did not fit. -/
inductive Production where
  | primary
  | parenthesized
  | conditional
  | endOfInput
  | named (text : String)
  deriving DecidableEq, Repr

/-- The wording of a production. -/
def Production.text : Production → String
  | primary => "primary"
  | parenthesized => "parenthesized expression"
  | conditional => "if"
  | endOfInput => "end of input"
  | named s => s

/-- Why no expression could be read. -/
inductive ParseError where
  | lexical (error : LexError)
  | unexpected (token : Token) (production : Production)
  | slotOccupied (occupied : SlotOccupied)
  | tooDeep
  deriving DecidableEq, Repr

/-- An action that reads from a stream of tokens. -/
abbrev Parser := EStateM ParseError TokenStream

namespace Parser

/-- Takes the next token. -/
def next : Parser Token := TokenStream.next.adaptExcept .lexical

/-- Looks at the next token. -/
def peek : Parser Token := TokenStream.peek.adaptExcept .lexical

/-- Puts a token back. -/
def pushBack (t : Token) : Parser Unit := (TokenStream.pushBack t).adaptExcept .slotOccupied

/-- Takes the next token, which has to be of the given kind. -/
def expect (kind : TokenKind) (production : Production) : Parser Token := do
  let t ← peek
  if t.kind = kind then next else throw (.unexpected t production)

/-- A loop on this stream goes round at most this often and once more. -/
def fuel : Parser Nat := fun s => .ok (s.size + 1) s

/-- A token that stands in front of an operand. -/
def isPrefixOp (t : Token) : Bool := t.kind == .symbol .minus || t.kind == .symbol .bang

/-- Takes the operators in front of an operand and adds them to `taken`, the last one first. -/
def prefixes : Nat → List Token → Parser (List Token)
  | 0, taken => pure taken
  | n + 1, taken => do
    let t ← peek
    if isPrefixOp t then
      let _ ← next
      prefixes n (t :: taken)
    else pure taken

/-- An operand under the operators in front of it, the innermost of which comes first. -/
def applyPrefixes (ops : List Token) (operand : Expr) : Expr :=
  ops.foldl (fun e t => .unary t.position t.value e) operand

/-- Reads the operators that bind at least as tightly as `min`, and their right operands, on from
    the operand `left`. The right operand of an operator is read by `operand` and goes on by
    `tighter` with the operators that bind more tightly. The token that ends the run is put back. -/
def climb (operand : Parser Expr) (tighter : Expr → Int → Parser Expr) (min : Int) :
    Nat → Expr → Parser Expr
  | 0, left => pure left
  | n + 1, left => do
    let t ← next
    let p := t.kind.precedence
    if p = 0 ∨ (p : Int) < min then
      pushBack t
      pure left
    else
      let first ← operand
      let right ← tighter first (p + 1)
      climb operand tighter min n (.binary t.position t.value left right)

mutual

/-- Reads an expression. -/
def expression : Nat → Parser Expr
  | 0 => throw .tooDeep
  | depth + 1 => do
    let left ← unary depth
    binary depth left 1

/-- Reads on from an operand with the operators that bind at least as tightly as `min`. -/
def binary : Nat → Expr → Int → Parser Expr
  | 0, _, _ => throw .tooDeep
  | depth + 1, left, min => do
    climb (unary depth) (binary depth) min (← fuel) left

/-- Reads an operand with the operators in front of it. -/
def unary : Nat → Parser Expr
  | 0 => throw .tooDeep
  | depth + 1 => do
    let ops ← prefixes (← fuel) []
    let operand ← primary depth
    pure (applyPrefixes ops operand)

/-- Reads an operand. -/
def primary : Nat → Parser Expr
  | 0 => throw .tooDeep
  | depth + 1 => do
    let t ← peek
    match t.kind with
    | .integer =>
      let _ ← next
      pure (.integer t.position t.value)
    | .identifier =>
      let _ ← next
      pure (.identifier t.position t.value)
    | .symbol .leftParen =>
      let _ ← next
      let inner ← expression depth
      let _ ← expect (.symbol .rightParen) .parenthesized
      pure inner
    | .keyword .ifWord => conditional depth
    | _ => throw (.unexpected t .primary)

/-- Reads a choice between two branches. -/
def conditional : Nat → Parser Expr
  | 0 => throw .tooDeep
  | depth + 1 => do
    let opening ← expect (.keyword .ifWord) .conditional
    let condition ← expression depth
    let _ ← expect (.keyword .thenWord) .conditional
    let consequent ← expression depth
    let _ ← expect (.keyword .elseWord) .conditional
    let alternative ← expression depth
    let _ ← expect (.keyword .endWord) .conditional
    pure (.conditional opening.position condition consequent alternative)

end

/-- Reads an expression that ends with the input. -/
def complete : Nat → Parser Expr
  | 0 => throw .tooDeep
  | depth + 1 => do
    let e ← expression depth
    let t ← peek
    if t.kind = .endOfInput then pure e else throw (.unexpected t .endOfInput)

/-- How deep readers may call one another. -/
def maxDepth : Nat := 1000

end Parser

/-- The expression that a text spells, within a budget of depth. -/
def parseWithin (depth : Nat) (s : String) : Except ParseError Expr :=
  match Parser.complete depth (TokenStream.ofText s) with
  | .ok e _ => .ok e
  | .error e _ => .error e

/-- The expression that a text spells. -/
def parse (s : String) : Except ParseError Expr := parseWithin Parser.maxDepth s

end ExprLang

import ExprLang.Position
import ExprLang.Value

/-! Tokens.

    A token is a kind, a value and the position of its first character. The kinds fall
    into keywords, symbols, integers, identifiers and the end of the input. The spellings of
    keywords and symbols are tables here and nowhere else: the reader, the messages and the listings
    all look them up. -/

namespace ExprLang

/-- A reserved word. -/
inductive Keyword where
  | letWord | andWord | inWord | ifWord | thenWord | elseWord | recurWord | loopWord | endWord
  deriving DecidableEq, Repr

namespace Keyword

/-- Every reserved word, in the order of the kinds. -/
def all : List Keyword :=
  [letWord, andWord, inWord, ifWord, thenWord, elseWord, recurWord, loopWord, endWord]

/-- The spelling of a reserved word. -/
def text : Keyword → String
  | letWord => "let"
  | andWord => "and"
  | inWord => "in"
  | ifWord => "if"
  | thenWord => "then"
  | elseWord => "else"
  | recurWord => "recur"
  | loopWord => "loop"
  | endWord => "end"

/-- The name of the kind of a reserved word. -/
def name : Keyword → String
  | letWord => "LET"
  | andWord => "AND_KW"
  | inWord => "IN"
  | ifWord => "IF"
  | thenWord => "THEN"
  | elseWord => "ELSE"
  | recurWord => "RECUR"
  | loopWord => "LOOP"
  | endWord => "END"

/-- The reserved word that a text spells. -/
def ofText? (s : String) : Option Keyword := all.find? fun k => k.text == s

theorem mem_all (k : Keyword) : k ∈ all := by cases k <;> decide

end Keyword

/-- A parenthesis or an operator. -/
inductive Symbol where
  | leftParen | rightParen | plus | minus | star | slash | percent | less | equal | notEqual | bang
  | andAnd | orOr | assign
  deriving DecidableEq, Repr

namespace Symbol

/-- Every symbol, in the order of the kinds. -/
def all : List Symbol :=
  [leftParen, rightParen, plus, minus, star, slash, percent, less, equal, notEqual, bang, andAnd,
   orOr, assign]

/-- The spelling of a symbol. -/
def text : Symbol → String
  | leftParen => "("
  | rightParen => ")"
  | plus => "+"
  | minus => "-"
  | star => "*"
  | slash => "/"
  | percent => "%"
  | less => "<"
  | equal => "=="
  | notEqual => "!="
  | bang => "!"
  | andAnd => "&&"
  | orOr => "||"
  | assign => "="

/-- The name of the kind of a symbol. -/
def name : Symbol → String
  | leftParen => "LPAREN"
  | rightParen => "RPAREN"
  | plus => "PLUS"
  | minus => "MINUS"
  | star => "STAR"
  | slash => "SLASH"
  | percent => "MOD"
  | less => "LT"
  | equal => "EQ"
  | notEqual => "NEQ"
  | bang => "NOT"
  | andAnd => "AND"
  | orOr => "OR"
  | assign => "ASSIGN"

/-- How tightly a symbol binds between two operands; zero for one that does not stand there. -/
def precedence : Symbol → Nat
  | orOr => 1
  | andAnd => 2
  | equal | notEqual => 3
  | less => 4
  | plus | minus => 5
  | star | slash | percent => 6
  | leftParen | rightParen | bang | assign => 0

/-- The symbol at the front of a text: of two that fit, the longer. -/
def scan? : List Char → Option Symbol
  | '=' :: '=' :: _ => some equal
  | '!' :: '=' :: _ => some notEqual
  | '&' :: '&' :: _ => some andAnd
  | '|' :: '|' :: _ => some orOr
  | '(' :: _ => some leftParen
  | ')' :: _ => some rightParen
  | '+' :: _ => some plus
  | '-' :: _ => some minus
  | '*' :: _ => some star
  | '/' :: _ => some slash
  | '%' :: _ => some percent
  | '<' :: _ => some less
  | '!' :: _ => some bang
  | '=' :: _ => some assign
  | _ => none

theorem mem_all (s : Symbol) : s ∈ all := by cases s <;> decide

theorem precedence_le_six (s : Symbol) : s.precedence ≤ 6 := by cases s <;> decide

end Symbol

/-- What a token is. -/
inductive TokenKind where
  | integer
  | identifier
  | keyword (k : Keyword)
  | symbol (s : Symbol)
  | endOfInput
  deriving DecidableEq, Repr

namespace TokenKind

/-- Every kind, in the order in which they are listed. -/
def all : List TokenKind :=
  [integer, identifier] ++ Keyword.all.map keyword ++ Symbol.all.map symbol ++ [endOfInput]

/-- The name of a kind. -/
def name : TokenKind → String
  | integer => "INTEGER"
  | identifier => "IDENTIFIER"
  | keyword k => k.name
  | symbol s => s.name
  | endOfInput => "EOF"

/-- The kind that a name stands for. -/
def ofName? (s : String) : Option TokenKind := all.find? fun k => k.name == s

/-- The kind of a word: a reserved word, or else an identifier. -/
def ofWord (s : String) : TokenKind :=
  match Keyword.ofText? s with
  | some k => keyword k
  | none => identifier

/-- A reserved word. -/
def isKeyword : TokenKind → Bool
  | keyword _ => true
  | _ => false

/-- A parenthesis or an operator. -/
def isOperator : TokenKind → Bool
  | symbol _ => true
  | _ => false

/-- How tightly a kind binds between two operands; zero for one that does not stand there. -/
def precedence : TokenKind → Nat
  | symbol s => s.precedence
  | _ => 0

theorem mem_all : ∀ k : TokenKind, k ∈ all
  | integer | identifier | endOfInput => by decide
  | keyword k => by cases k <;> decide
  | symbol s => by cases s <;> decide

end TokenKind

/-- A token and where it begins. A token built by hand may lack a value or a known position. -/
structure Token where
  kind : TokenKind
  value : Value
  position : Position
  deriving DecidableEq, Repr

namespace Token

/-- A token as the messages name it. -/
def describe (t : Token) : String :=
  match t.kind with
  | .endOfInput => "end of input"
  | .keyword k => "keyword '" ++ k.text ++ "'"
  | .symbol s => "operator '" ++ s.text ++ "'"
  | .integer => "integer " ++ t.value.plain
  | .identifier => "identifier '" ++ t.value.plain ++ "'"

/-- A token as a line of the token listing. -/
def listing (t : Token) : String :=
  match t.kind with
  | .keyword k => "keyword " ++ k.text
  | .symbol s => "operator " ++ s.text
  | .integer => "integer " ++ t.value.plain
  | .identifier => "identifier " ++ t.value.plain
  | .endOfInput => "eof"

/-- A token with its kind and its quoted value. -/
def display (t : Token) : String := "Token(" ++ t.kind.name ++ ", " ++ t.value.quoted ++ ")"

end Token
end ExprLang

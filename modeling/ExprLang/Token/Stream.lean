import ExprLang.Token.Lexer

/-! Streams of tokens with one token of lookahead.

    A stream is a cursor and a slot that may hold one token, which comes before all that the cursor
    has still to read. Looking at the next token fills the slot, taking it empties the slot, and one
    token may be put back while the slot is empty. A token that cannot be read leaves the slot
    empty and the cursor where the reading broke off. -/

namespace ExprLang

/-- A cursor, and the token in front of all that it has still to read. -/
structure TokenStream where
  cursor : Cursor
  pending : Option Token
  deriving DecidableEq, Repr

/-- A token that was put back while the slot held another. -/
structure SlotOccupied where
  held : Token
  pushed : Token
  deriving DecidableEq, Repr

namespace TokenStream

/-- The stream of the tokens of a text. -/
def ofText (s : String) : TokenStream := ⟨Cursor.ofText s, none⟩

/-- Takes the next token. -/
def next : EStateM LexError TokenStream Token := fun s =>
  match s.pending with
  | some t => .ok t ⟨s.cursor, none⟩
  | none =>
    match Lexer.next s.cursor with
    | .ok t c => .ok t ⟨c, none⟩
    | .error e c => .error e ⟨c, none⟩

/-- Looks at the next token and leaves it. -/
def peek : EStateM LexError TokenStream Token := fun s =>
  match s.pending with
  | some t => .ok t s
  | none =>
    match Lexer.next s.cursor with
    | .ok t c => .ok t ⟨c, some t⟩
    | .error e c => .error e ⟨c, none⟩

/-- Puts a token in front of the stream. -/
def pushBack (t : Token) : EStateM SlotOccupied TokenStream Unit := fun s =>
  match s.pending with
  | some held => .error ⟨held, t⟩ s
  | none => .ok () ⟨s.cursor, some t⟩

/-- A bound on the number of tokens that come before the end of the input. -/
def size (s : TokenStream) : Nat :=
  s.cursor.rest.length +
    match s.pending with
    | some t => if t.kind = .endOfInput then 0 else 1
    | none => 0

/-- Taking a token other than the end of the input makes a stream smaller. -/
theorem size_next_lt {s s' : TokenStream} {t : Token} (h : next s = .ok t s')
    (ht : t.kind ≠ .endOfInput) : s'.size < s.size := by
  unfold next at h
  split at h
  · rename_i t' hp
    injection h with h1 h2
    subst h1 h2
    simp only [size, hp, ht, if_false]
    omega
  · rename_i hp
    split at h
    · rename_i t' c' hc
      injection h with h1 h2
      subst h1 h2
      have := Lexer.length_next_lt hc ht
      simp only [size, hp]
      omega
    · cases h

end TokenStream
end ExprLang

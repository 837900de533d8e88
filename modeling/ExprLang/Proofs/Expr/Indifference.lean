import ExprLang.Proofs.Expr.Correspondence

/-! Readers of expressions do not mind the slot.

    A stream can be looked at before a reader of expressions is let loose on it, and then its first
    token lies in the slot already. No reader can tell: on two streams of which the same is still to
    come, it gives the same tree or fails in the same way, and leaves streams of which the same is
    still to come (`IndifferentAt`). None of them ever finds the slot taken when it puts a token
    back. This is what it comes to that readers run in parallel where no place is changed. -/

namespace ExprLang.Parser

open TokenStream

section Alike

variable {α : Type}

/-- Two ends of an action that are the same apart from where the slot stands. The slot is never
    found taken. -/
def Alike : EStateM.Result ParseError TokenStream α → EStateM.Result ParseError TokenStream α → Prop
  | .ok a s, .ok a' s' => a = a' ∧ s.remaining = s'.remaining
  | .error e s, .error e' s' =>
    e = e' ∧ (∀ o, e ≠ .slotOccupied o) ∧ s.remaining = s'.remaining
  | _, _ => False

/-- On streams of which the same is to come, an action ends in the same way. -/
def Indifferent (x : Parser α) : Prop :=
  ∀ s s', s.remaining = s'.remaining → Alike (x s) (x s')

theorem ahead_id {s s' : TokenStream} : Ahead id s s' ↔ s.remaining = s'.remaining := by
  have hsame : Except.map (Token.relocate id) = (id : Except LexError Token → _) := by
    funext r
    cases r <;> rfl
  rw [Ahead, hsame, Stream'.map_id, Stream'.map_id]

theorem eq_of_like {e e' : Expr} (h : e.Like id e') : e = e' := by
  rw [← e.relocate_id, ← e'.relocate_id]
  exact h

/-- An action that does the same on two streams wherever the tokens stand cannot tell which of the
    two it reads. -/
theorem Parallel.indifferent {like : α → α → Prop} {x : Parser α} (h : Parallel id like x x)
    (hlike : ∀ a a', like a a' → a = a') : Indifferent x := by
  intro s s' hs
  have hmatch := h s s' (ahead_id.mpr hs)
  cases hx : x s with
  | ok a u =>
    cases hx' : x s' with
    | ok a' u' =>
      rw [hx, hx'] at hmatch
      exact ⟨hlike a a' hmatch.1, ahead_id.mp hmatch.2⟩
    | error e' u' =>
      rw [hx, hx'] at hmatch
      exact hmatch.elim
  | error e u =>
    cases hx' : x s' with
    | ok a' u' =>
      rw [hx, hx'] at hmatch
      exact hmatch.elim
    | error e' u' =>
      rw [hx, hx'] at hmatch
      obtain ⟨he, hslot, hu⟩ := hmatch
      rw [ParseError.relocate_id, ParseError.relocate_id] at he
      exact ⟨he, hslot, ahead_id.mp hu⟩

end Alike

/-- No reader with a budget of `depth` can tell whether the slot holds a token, and neither can what
    the readers are made from. -/
structure IndifferentAt (depth : Nat) : Prop where
  peek : Indifferent peek
  next : Indifferent next
  expect : ∀ kind production, Indifferent (expect kind production)
  primary : Indifferent (primary depth)
  unary : Indifferent (unary depth)
  binary : ∀ left min, Indifferent (binary depth left min)
  conditional : Indifferent (conditional depth)
  expression : Indifferent (expression depth)
  complete : Indifferent (complete depth)

theorem indifferentAt (depth : Nat) : IndifferentAt depth := by
  have htoken : ∀ t t' : Token, t.Like id t' → t = t' := fun _ _ h => h
  have htree : ∀ e e' : Expr, e.Like id e' → e = e' := fun _ _ h => eq_of_like h
  have h := parallelAt id depth
  exact {
    peek := parallel_peek.indifferent htoken
    next := parallel_next.indifferent htoken
    expect := fun kind production => (parallel_expect kind production).indifferent htoken
    primary := h.primary.indifferent htree
    unary := h.unary.indifferent htree
    binary := fun left min => (h.binary left left min rfl).indifferent htree
    conditional := h.conditional.indifferent htree
    expression := h.expression.indifferent htree
    complete := (parallel_complete id depth).indifferent htree }

end ExprLang.Parser

namespace ExprLang

open TokenStream

/-- The slot neither loses, repeats nor moves a token of a text. Once the end of the input has been
    read, it is read for ever. Whatever was asked of the stream, what is still to come is the token
    in its slot, if it holds one, and then what the lexer gives behind the readings that there have
    been; and everything that is asked next acts on that as on the front of a list. No reader of
    expressions can tell on which side of the slot its first token stands, or finds the slot
    taken. -/
theorem slot_transparent (text : String) :
    (∀ n t, (Lexer.outcomes (.ofText text)).get n = .ok t → t.kind = .endOfInput →
      ∀ m, n ≤ m → (Lexer.outcomes (.ofText text)).get m = .ok t) ∧
    (∀ asked request, let (s, readings) := (ofText text).serveAll asked
      s.remaining = s.pending.toList.map .ok ++ₛ (Lexer.outcomes (.ofText text)).drop readings ∧
      s.ActsInFront request) ∧
    ∀ depth, Parser.IndifferentAt depth :=
  ⟨fun _ _ h ht _ hm => Lexer.get_outcomes_of_endOfInput h ht hm,
    fun asked request => ⟨remaining_serveAll (ofText text) asked, actsInFront _ request⟩,
    Parser.indifferentAt⟩

/-- In `7 @` a number comes, and then the same character is refused again and again. Whether the
    number was looked at before makes no difference to a reader. -/
theorem slot_transparent_refused :
    let s : TokenStream := ofText "7 @"
    let looked := (s.serveAll [.peek]).1
    looked.pending = some ⟨.integer, .number 7, ⟨1, 1⟩⟩ ∧
      (s.serveAll [.peek, .next, .peek, .next]).2 = 3 ∧ s.remaining = looked.remaining ∧
      Parser.Alike (Parser.complete 50 s) (Parser.complete 50 looked) := by
  intro s looked
  obtain ⟨-, hleft⟩ := ((slot_transparent "7 @").2.1 [] .peek).2
  have hsame : s.remaining = looked.remaining := hleft.symm
  exact ⟨by rfl, by rfl, hsame, ((slot_transparent "7 @").2.2 50).complete s looked hsame⟩

end ExprLang

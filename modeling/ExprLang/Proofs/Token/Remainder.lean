import Mathlib.Data.Stream.Init
import ExprLang.Proofs.Token.Lookahead
import ExprLang.Proofs.Token.Reading

/-! What is still to come out of a stream.

    Reading from a cursor again and again gives tokens and failures without end: a failure does not
    stop it, and the end of the input is read for ever (`Lexer.outcomes`). What is still to come out
    of a stream is the token in its slot, if it holds one, and then all that its cursor gives
    (`remaining`). Taking, looking and putting back act on what is to come as on the front of a
    list, and whether its first token lies in the slot already makes no difference to what is taken
    or seen (`actsInFront`). Whatever was asked of a stream before, nothing of its text is lost,
    repeated or moved (`remaining_serveAll`). -/

namespace ExprLang

/-- What an action gives, apart from the state that it leaves. -/
def outcomeOf {ε σ α : Type} : EStateM.Result ε σ α → Except ε α
  | .ok a _ => .ok a
  | .error e _ => .error e

/-- The state that an action leaves, whether it fails or not. -/
def stateOf {ε σ α : Type} : EStateM.Result ε σ α → σ
  | .ok _ s => s
  | .error _ s => s

namespace Lexer

/-- What reading from a cursor again and again gives. -/
def outcomes (c : Cursor) : Stream' (Except LexError Token) :=
  Stream'.corec (fun c => outcomeOf (next c)) (fun c => stateOf (next c)) c

theorem head_outcomes (c : Cursor) : (outcomes c).head = outcomeOf (next c) := rfl

theorem tail_outcomes (c : Cursor) : (outcomes c).tail = outcomes (stateOf (next c)) := by
  rw [outcomes, Stream'.corec_eq, Stream'.tail_cons]
  rfl

/-- What is read behind some readings is what another cursor gives. -/
theorem exists_drop_outcomes (c : Cursor) (n : Nat) : ∃ c', (outcomes c).drop n = outcomes c' := by
  induction n generalizing c with
  | zero => exact ⟨c, rfl⟩
  | succ n ih =>
    rw [Stream'.drop_succ, tail_outcomes]
    exact ih _

/-- The end of the input is read for ever. -/
theorem outcomes_endOfInput {c c' : Cursor} {t : Token} (h : next c = .ok t c')
    (ht : t.kind = .endOfInput) : outcomes c = Stream'.const (.ok t) := by
  obtain ⟨hc', hnil⟩ := next_endOfInput h ht
  have hagain : next c' = .ok t c' := by
    rw [next, ← hc', Lexical.lexeme_of_nil hnil] at h
    rw [Lexical.next_of_rest_eq_nil hnil]
    exact h
  have hconst : ∀ n, (outcomes c').get n = .ok t := by
    intro n
    induction n with
    | zero =>
      rw [← Stream'.head, head_outcomes, hagain]
      rfl
    | succ n ih => rw [Stream'.get_succ, tail_outcomes, hagain]; exact ih
  refine Stream'.ext fun n => ?_
  rw [Stream'.get_const]
  cases n with
  | zero =>
    rw [← Stream'.head, head_outcomes, h]
    rfl
  | succ n =>
    rw [Stream'.get_succ, tail_outcomes, h]
    exact hconst n

/-- Once the end of the input has been read, it is read for ever. -/
theorem get_outcomes_of_endOfInput {c : Cursor} {t : Token} {n : Nat}
    (h : (outcomes c).get n = .ok t) (ht : t.kind = .endOfInput) {m : Nat} (hm : n ≤ m) :
    (outcomes c).get m = .ok t := by
  obtain ⟨c', hc'⟩ := exists_drop_outcomes c n
  have hget : ∀ k, (outcomes c).get (n + k) = (outcomes c').get k := by
    intro k
    rw [← hc', Stream'.get_drop]
  obtain ⟨k, rfl⟩ := Nat.exists_eq_add_of_le hm
  have hhead : outcomeOf (next c') = .ok t := by
    rw [← head_outcomes, Stream'.head, ← hget 0]
    exact h
  rw [hget k]
  cases hnext : next c' with
  | ok u c₁ =>
    rw [hnext] at hhead
    obtain rfl : u = t := by injection hhead
    rw [outcomes_endOfInput hnext ht, Stream'.get_const]
  | error e c₁ =>
    rw [hnext] at hhead
    cases hhead

end Lexer

namespace TokenStream

open Stream' (cons head tail)

/-- What is still to come out of a stream: the token in its slot, if it holds one, and then what its
    cursor gives. -/
def remaining (s : TokenStream) : Stream' (Except LexError Token) :=
  s.pending.toList.map .ok ++ₛ Lexer.outcomes s.cursor

@[simp] theorem remaining_held (c : Cursor) (t : Token) :
    remaining ⟨c, some t⟩ = cons (.ok t) (Lexer.outcomes c) := rfl

@[simp] theorem remaining_empty (c : Cursor) : remaining ⟨c, none⟩ = Lexer.outcomes c := rfl

/-- Taking takes what comes first, be it a token or a failure, and empties the slot. -/
theorem next_remaining (s : TokenStream) : outcomeOf (next s) = head s.remaining ∧
    (stateOf (next s)).remaining = tail s.remaining ∧ (stateOf (next s)).pending = none := by
  obtain ⟨c, p⟩ := s
  cases p with
  | some t => exact ⟨rfl, rfl, rfl⟩
  | none =>
    rw [remaining_empty, Lexer.head_outcomes, Lexer.tail_outcomes, next_empty]
    cases Lexer.next c with
    | ok t c' => exact ⟨rfl, rfl, rfl⟩
    | error e c' => exact ⟨rfl, rfl, rfl⟩

/-- Looking shows what comes first and leaves it if it is a token; a failure is gone. -/
theorem peek_remaining (s : TokenStream) : outcomeOf (peek s) = head s.remaining ∧
    (stateOf (peek s)).remaining =
      match head s.remaining with
      | .ok _ => s.remaining
      | .error _ => tail s.remaining := by
  cases hp : peek s with
  | ok t s' =>
    obtain ⟨hs', hn⟩ := next_of_peek hp
    obtain ⟨hhead, htail, -⟩ := next_remaining s
    rw [hn] at hhead htail
    rw [← hhead]
    refine ⟨rfl, ?_⟩
    show s'.remaining = s.remaining
    rw [hs', remaining_held]
    exact (congrArg (cons (.ok t)) htail).trans (hhead ▸ Stream'.eta _)
  | error e s' =>
    have hn := peek_eq_error_iff.mp hp
    obtain ⟨hhead, htail, -⟩ := next_remaining s
    rw [hn] at hhead htail
    rw [← hhead]
    exact ⟨rfl, htail⟩

/-- What is put back comes first from then on, unless the slot holds a token; then nothing
    changes. -/
theorem pushBack_remaining (t : Token) (s : TokenStream) :
    match s.pending with
    | none => outcomeOf (pushBack t s) = .ok () ∧
        (stateOf (pushBack t s)).remaining = cons (.ok t) s.remaining
    | some held => pushBack t s = .error ⟨held, t⟩ s := by
  obtain ⟨c, p⟩ := s
  cases p with
  | none => exact ⟨rfl, rfl⟩
  | some held => rfl

/-! ### Requests -/

/-- What can be asked of a stream. -/
inductive Request where
  | next
  | peek
  | pushBack (t : Token)
  deriving DecidableEq, Repr

/-- The stream behind a request. -/
def serve (s : TokenStream) : Request → TokenStream
  | .next => stateOf (next s)
  | .peek => stateOf (peek s)
  | .pushBack t => stateOf (pushBack t s)

/-- How many tokens the lexer is asked for on account of a request. -/
def readings (s : TokenStream) : Request → Nat
  | .next | .peek => if s.pending.isSome then 0 else 1
  | .pushBack _ => 0

/-- The stream behind some requests, and how many tokens the lexer was asked for on the way. -/
def serveAll (s : TokenStream) : List Request → TokenStream × Nat
  | [] => (s, 0)
  | r :: rs =>
    let (s', n) := (s.serve r).serveAll rs
    (s', s.readings r + n)

/-- A request acts on what is still to come as on the front of a list. -/
def ActsInFront (s : TokenStream) : Request → Prop
  | .next => outcomeOf (next s) = head s.remaining ∧ (s.serve .next).remaining = tail s.remaining
  | .peek => outcomeOf (peek s) = head s.remaining ∧ (s.serve .peek).remaining =
      match head s.remaining with
      | .ok _ => s.remaining
      | .error _ => tail s.remaining
  | .pushBack t =>
    match s.pending with
    | none => outcomeOf (pushBack t s) = .ok () ∧
        (s.serve (.pushBack t)).remaining = cons (.ok t) s.remaining
    | some held => pushBack t s = .error ⟨held, t⟩ s

theorem actsInFront (s : TokenStream) (r : Request) : s.ActsInFront r := by
  cases r with
  | next => exact ⟨(next_remaining s).1, (next_remaining s).2.1⟩
  | peek => exact peek_remaining s
  | pushBack t => exact pushBack_remaining t s

/-- The cursor gives on what it gave, behind the readings that a request causes. -/
theorem outcomes_serve (s : TokenStream) (r : Request) :
    Lexer.outcomes (s.serve r).cursor = (Lexer.outcomes s.cursor).drop (s.readings r) := by
  obtain ⟨c, p⟩ := s
  cases p with
  | some held => cases r <;> rfl
  | none =>
    have hread : (Lexer.outcomes c).drop 1 = Lexer.outcomes (stateOf (Lexer.next c)) := by
      rw [← Stream'.tail_eq_drop, Lexer.tail_outcomes]
    cases r with
    | pushBack t => rfl
    | next =>
      simp only [serve, readings, next_empty, Option.isSome_none, Bool.false_eq_true, if_false]
      rw [hread]
      cases Lexer.next c <;> rfl
    | peek =>
      simp only [serve, readings, peek, Option.isSome_none, Bool.false_eq_true, if_false]
      rw [hread]
      cases Lexer.next c <;> rfl

theorem outcomes_serveAll (s : TokenStream) (rs : List Request) :
    Lexer.outcomes (s.serveAll rs).1.cursor =
      (Lexer.outcomes s.cursor).drop (s.serveAll rs).2 := by
  induction rs generalizing s with
  | nil => rfl
  | cons r rs ih =>
    simp only [serveAll]
    rw [ih, outcomes_serve, Stream'.drop_drop]

/-- Whatever was asked of a stream, what is still to come is the token in its slot, if it holds one,
    and then what its cursor gave at first, behind as many readings as there have been. -/
theorem remaining_serveAll (s : TokenStream) (rs : List Request) :
    (s.serveAll rs).1.remaining = (s.serveAll rs).1.pending.toList.map .ok ++ₛ
      (Lexer.outcomes s.cursor).drop (s.serveAll rs).2 := by
  rw [remaining, outcomes_serveAll]

end TokenStream
end ExprLang

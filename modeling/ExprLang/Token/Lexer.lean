import ExprLang.Cursor
import ExprLang.Token.Basic
import ExprLang.Word64

/-! Reading tokens.

    A reader of tokens is an action on a cursor that may fail. A failure keeps the cursor where the
    reading broke off: in front of a character that begins no token, and behind a number that is no
    number. The end of the input is a token too, and it is read again and again. -/

namespace ExprLang

/-- What is wrong with a number. -/
inductive NumberFault where
  | letters
  | range
  deriving DecidableEq, Repr

/-- The wording of what is wrong with a number. -/
def NumberFault.text : NumberFault → String
  | .letters => "letters after digits"
  | .range => "out of 64-bit range"

/-- Why no token could be read. -/
inductive LexError where
  | unexpectedChar (char : Char) (position : Position)
  | malformedNumber (text : String) (fault : NumberFault) (position : Position)
  | tooManyDigits (count : Nat)
  | noDigits
  | noCharacter
  deriving DecidableEq, Repr

/-- An action that reads from a cursor. -/
abbrev Lexer := EStateM LexError Cursor

namespace Lexer

/-- The longest run of digits that is converted to a number, leading zeros included. -/
def maxDigits : Nat := 4300

/-- Reads a run of digits as a number. Letters behind it belong to the fault. -/
def number : Lexer Int := fun c =>
  let digits := c.rest.takeWhile Char.isDigit
  let behind := c.pass digits.length
  if behind.current?.any Text.isIdentStart then
    let letters := behind.rest.takeWhile Text.isIdentChar
    .error (.malformedNumber (String.ofList (digits ++ letters)) .letters c.position)
      (behind.pass letters.length)
  else if digits = [] then .error .noDigits behind
  else if maxDigits < digits.length then .error (.tooManyDigits digits.length) behind
  else if Word64.maxValue < Text.decimalValue digits then
    .error (.malformedNumber (String.ofList digits) .range c.position) behind
  else .ok (Text.decimalValue digits) behind

/-- Reads the character under the cursor, whatever it is, and the identifier characters behind. -/
def word : Lexer String := fun c =>
  match c.rest with
  | [] => .error .noCharacter c.advance
  | d :: ds =>
    let more := ds.takeWhile Text.isIdentChar
    .ok (String.ofList (d :: more)) (c.pass (more.length + 1))

/-- Reads the token under the cursor, which stands on no blank and on no comment. -/
def lexeme : Lexer Token := fun c =>
  match c.rest with
  | [] => .ok ⟨.endOfInput, .absent, c.position⟩ c
  | d :: _ =>
    match Symbol.scan? c.rest with
    | some s => .ok ⟨.symbol s, .text s.text, c.position⟩ (c.pass s.text.length)
    | none =>
      if d.isDigit then
        EStateM.map (fun n => ⟨.integer, .number n, c.position⟩) number c
      else if Text.isIdentStart d then
        EStateM.map (fun w => ⟨.ofWord w, .text w, c.position⟩) word c
      else .error (.unexpectedChar d c.position) c

/-- Reads the next token. -/
def next : Lexer Token := fun c => lexeme c.skipTrivia

/-! ### What a reading consumes -/

theorem number_ok {c c' : Cursor} {n : Int} (h : number c = .ok n c') :
    c.rest.takeWhile Char.isDigit ≠ [] ∧
      c' = c.pass (c.rest.takeWhile Char.isDigit).length := by
  unfold number at h
  dsimp only at h
  split at h
  · cases h
  · split at h
    · cases h
    · split at h
      · cases h
      · split at h
        · cases h
        · rename_i hne _ _
          injection h with _ hc
          exact ⟨hne, hc.symm⟩

theorem word_ok {c c' : Cursor} {w : String} (h : word c = .ok w c') :
    ∃ n, c.rest ≠ [] ∧ c' = c.pass (n + 1) := by
  unfold word at h
  split at h
  · cases h
  · rename_i d ds hr
    injection h with _ hc
    exact ⟨_, by rw [hr]; exact List.cons_ne_nil _ _, hc.symm⟩

theorem map_ok {α β : Type} {f : α → β} {x : Lexer α} {c c' : Cursor} {b : β}
    (h : EStateM.map f x c = .ok b c') : ∃ a, x c = .ok a c' ∧ b = f a := by
  unfold EStateM.map at h
  split at h
  · rename_i a s hx
    injection h with hb hs
    exact ⟨a, by rw [hx, hs], hb.symm⟩
  · cases h

/-- A move over at least one character that exists leaves less to read. -/
theorem length_pass_lt {c : Cursor} {n : Nat} (hn : 0 < n) (hr : c.rest ≠ []) :
    (c.pass n).rest.length < c.rest.length := by
  have := List.length_pos_iff.mpr hr
  simp only [Cursor.rest_pass, List.length_drop]
  omega

theorem length_lexeme_lt {c c' : Cursor} {t : Token} (h : lexeme c = .ok t c')
    (ht : t.kind ≠ .endOfInput) : c'.rest.length < c.rest.length := by
  unfold lexeme at h
  split at h
  · injection h with h1 _
    subst h1
    exact absurd rfl ht
  · rename_i d ds hr
    have hne : c.rest ≠ [] := by rw [hr]; exact List.cons_ne_nil _ _
    split at h
    · rename_i s _
      injection h with _ hc
      subst hc
      exact length_pass_lt (by cases s <;> decide) hne
    · split at h
      · obtain ⟨n, hx, _⟩ := map_ok h
        obtain ⟨hd, rfl⟩ := number_ok hx
        exact length_pass_lt (List.length_pos_iff.mpr hd) hne
      · split at h
        · obtain ⟨w, hx, _⟩ := map_ok h
          obtain ⟨n, _, rfl⟩ := word_ok hx
          exact length_pass_lt (Nat.succ_pos n) hne
        · cases h

/-- A token other than the end of the input leaves less to read. -/
theorem length_next_lt {c c' : Cursor} {t : Token} (h : next c = .ok t c')
    (ht : t.kind ≠ .endOfInput) : c'.rest.length < c.rest.length :=
  Nat.lt_of_lt_of_le (length_lexeme_lt h ht) (Cursor.length_rest_pass_le c _)

/-- The tokens read before the end of the input or a failure, which one it was, and where. The end
    of the input counts as a token. -/
structure Run where
  tokens : List Token
  error? : Option LexError
  cursor : Cursor
  deriving DecidableEq, Repr

/-- Reads tokens up to and including the end of the input, or up to a failure. -/
def run (c : Cursor) : Run :=
  match _h : next c with
  | .error e c' => ⟨[], some e, c'⟩
  | .ok t c' =>
    if _ht : t.kind = .endOfInput then ⟨[t], none, c'⟩
    else
      let r := run c'
      ⟨t :: r.tokens, r.error?, r.cursor⟩
termination_by c.rest.length
decreasing_by exact length_next_lt _h _ht

/-- Reads all tokens, the last of which is the end of the input. -/
def tokens : Lexer (List Token) := fun c =>
  let r := run c
  match r.error? with
  | none => .ok r.tokens r.cursor
  | some e => .error e r.cursor

end Lexer

/-- The tokens of a text, the last of which is the end of the input. -/
def tokensOf (s : String) : Except LexError (List Token) :=
  let r := Lexer.run (Cursor.ofText s)
  match r.error? with
  | none => .ok r.tokens
  | some e => .error e

end ExprLang

import ExprLang.Proofs.Token.Reading

/-! What the lexer refuses, and where it then stands.

    A character that begins no token is left where it is. A number that is refused is gone: the
    cursor has come behind all of its digits, and behind the word that they run on into. -/

namespace ExprLang.Lexical

open Text Lexer

/-- The ways in which no token is read where a cursor stands, and the cursor behind each. -/
inductive Refusal (c : Cursor) : LexError → Cursor → Prop
  | character {d : Char} : c.current? = some d → Refusal c (.unexpectedChar d c.position) c
  | letters {ds rest : List Char} {w : String} :
    c.rest = ds ++ (w.toList ++ rest) → IsDigits ds → IsWord w → Breaks rest →
    Refusal c (.malformedNumber (String.ofList ds ++ w) .letters c.position)
      (c.pass (ds.length + w.toList.length))
  | range {ds rest : List Char} : c.rest = ds ++ rest → IsDigits ds → Breaks rest →
    Word64.maxValue < decimalValue ds →
    Refusal c (.malformedNumber (String.ofList ds) .range c.position) (c.pass ds.length)
  | tooManyDigits {ds rest : List Char} : c.rest = ds ++ rest → IsDigits ds → Breaks rest →
    maxDigits < ds.length → Refusal c (.tooManyDigits ds.length) (c.pass ds.length)

section Refusals

variable {c c' : Cursor} {e : LexError} {d : Char} {cs : List Char}

/-- A number is refused if it runs on into a word, is too long or is too large. -/
theorem refusal_number (hc : c.rest = d :: cs) (hd : d.isDigit = true) (h : number c = .error e c') :
    Refusal c e c' := by
  obtain ⟨ds, rest, heq, hds, hrest⟩ := exists_digits hd cs
  rw [heq] at hc
  rcases word_or_breaks hrest with ⟨w, more, rfl, hw, hmore⟩ | hbreaks
  · rw [number_of_isWord hc hds hw hmore] at h
    cases h
    exact .letters hc hds hw hmore
  · rw [number_of_breaks hc hds hbreaks] at h
    split at h
    · rename_i hlong
      cases h
      exact .tooManyDigits hc hds hbreaks hlong
    · split at h
      · rename_i hlarge
        cases h
        exact .range hc hds hbreaks hlarge
      · cases h

theorem map_error {α β : Type} {f : α → β} {x : Lexer α} (h : EStateM.map f x c = .error e c') :
    x c = .error e c' := by
  unfold EStateM.map at h
  split at h
  · cases h
  · rename_i hx
    cases h
    exact hx

/-- Words are never refused. -/
theorem word_ne_error (hc : c.rest = d :: cs) : word c ≠ .error e c' := by
  unfold word
  rw [hc]
  exact nofun

/-- Every failure to read a token is one of these. -/
theorem refusal_lexeme (h : lexeme c = .error e c') : Refusal c e c' := by
  unfold lexeme at h
  split at h
  · cases h
  · rename_i d ds hr
    split at h
    · cases h
    · split at h
      · rename_i hd
        exact refusal_number hr hd (map_error h)
      · split at h
        · exact absurd (map_error h) (word_ne_error hr)
        · cases h
          exact .character (by rw [Cursor.current?, hr]; rfl)

end Refusals

end ExprLang.Lexical

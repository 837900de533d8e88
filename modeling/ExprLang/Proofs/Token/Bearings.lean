import Mathlib.Data.List.Basic
import Mathlib.Data.List.Induction
import Mathlib.Logic.Function.Iterate
import ExprLang.Proofs.Token.Refusal
import ExprLang.Proofs.Token.Remainder

/-! The bearings of a cursor.

    A cursor keeps what is still to be read, an offset, a line and a column. All of them are settled
    by the text and the offset alone (`Cursor.IsIn`), and this stays so whatever the cursor is asked
    to do, in whatever order, behind failures and beyond the end of the text
    (`Lexer.serveAll_bearings`). For a request does nothing to a cursor but let it take some steps
    (`Lexer.ahead_serve`), and one step keeps the bearings (`Cursor.IsIn.advance`). -/

namespace ExprLang

namespace Text

/-- Where the last line of some characters begins: behind their last newline, or in front of all of
    them. -/
def lastLine (cs : List Char) : Nat := cs.length - cs.reverse.idxOf '\n'

@[simp] theorem lastLine_nil : lastLine [] = 0 := rfl

theorem lastLine_le (cs : List Char) : lastLine cs ≤ cs.length := Nat.sub_le _ _

theorem lastLine_newline (cs : List Char) : lastLine (cs ++ ['\n']) = cs.length + 1 := by
  simp [lastLine]

theorem lastLine_concat {c : Char} (hc : c ≠ '\n') (cs : List Char) :
    lastLine (cs ++ [c]) = lastLine cs := by
  have hidx : (cs ++ [c]).reverse.idxOf '\n' = cs.reverse.idxOf '\n' + 1 := by
    rw [List.reverse_append, List.reverse_singleton, List.singleton_append,
      List.idxOf_cons_ne _ hc]
  rw [lastLine, lastLine, hidx, List.length_append, List.length_singleton, Nat.add_sub_add_right]

/-- A newline stands in front of the last line, unless it is the first one, and none behind. -/
theorem lastLine_spec (cs : List Char) :
    (lastLine cs = 0 ∨ ∃ front, cs.take (lastLine cs) = front ++ ['\n']) ∧
      '\n' ∉ cs.drop (lastLine cs) := by
  induction cs using List.reverseRecOn with
  | nil => simp
  | append_singleton cs c ih =>
    by_cases hc : c = '\n'
    · subst hc
      have hlength : (cs ++ ['\n']).length ≤ lastLine (cs ++ ['\n']) := by
        rw [lastLine_newline, List.length_append, List.length_singleton]
      rw [List.take_of_length_le hlength, List.drop_of_length_le hlength]
      exact ⟨.inr ⟨cs, rfl⟩, List.not_mem_nil⟩
    · rw [lastLine_concat hc, List.take_append_of_le_length (lastLine_le cs),
        List.drop_append_of_le_length (lastLine_le cs)]
      refine ⟨ih.1, fun hmem => ?_⟩
      rcases List.mem_append.mp hmem with hmem | hmem
      · exact ih.2 hmem
      · exact hc (List.mem_singleton.mp hmem).symm

end Text

namespace Cursor

open Text

/-- A cursor stands in a text where its offset says: it has the characters from there on, its line is
    one more than the newlines in front of it, and its column one more than the steps from where this
    line begins. -/
structure IsIn (text : List Char) (c : Cursor) : Prop where
  rest_eq : c.rest = text.drop c.offset
  line_eq : c.position.line = 1 + (text.take c.offset).count '\n'
  column_eq : c.position.column = 1 + c.offset - lastLine (text.take c.offset)

theorem isIn_ofList (cs : List Char) : (ofList cs).IsIn cs := ⟨rfl, rfl, rfl⟩

section Bearings

variable {text : List Char} {c : Cursor}

theorem IsIn.current?_eq (h : c.IsIn text) : c.current? = text[c.offset]? := by
  rw [current?, h.rest_eq, List.head?_drop]

theorem IsIn.following?_eq (h : c.IsIn text) : c.following? = text[c.offset + 1]? := by
  rw [following?, h.rest_eq, List.tail_drop, List.head?_drop]

@[simp] theorem offset_advance (c : Cursor) : c.advance.offset = c.offset + 1 := by
  unfold advance
  split <;> rfl

/-- Where a character stands, one step moves it from what is to come to what is behind. -/
theorem of_drop_eq_cons {n : Nat} {d : Char} {rest : List Char} (h : text.drop n = d :: rest) :
    text.drop (n + 1) = rest ∧ text.take (n + 1) = text.take n ++ [d] ∧
      (text.take n).length = n := by
  have hd : text[n]? = some d := by rw [← List.head?_drop, h]; rfl
  have hlt : n < text.length := (List.getElem?_eq_some_iff.mp hd).1
  refine ⟨?_, ?_, List.length_take_of_le (Nat.le_of_lt hlt)⟩
  · rw [← List.tail_drop, h]
    rfl
  · rw [List.take_add_one, hd]
    rfl

/-- A step keeps the bearings, over a character, over a newline or beyond the end. -/
theorem IsIn.advance (h : c.IsIn text) : c.advance.IsIn text := by
  obtain ⟨rest, offset, position⟩ := c
  obtain ⟨hrest, hline, hcolumn⟩ := h
  dsimp only at hrest hline hcolumn
  unfold Cursor.advance
  cases rest with
  | nil =>
    have hle : text.length ≤ offset := List.drop_eq_nil_iff.mp hrest.symm
    have hle' : text.length ≤ offset + 1 := Nat.le_succ_of_le hle
    rw [List.take_of_length_le hle] at hline hcolumn
    constructor <;> dsimp only
    · exact (List.drop_of_length_le hle').symm
    · rw [List.take_of_length_le hle', hline]
    · rw [List.take_of_length_le hle', hcolumn]
      omega
  | cons d rest =>
    obtain ⟨hdrop, htake, hlength⟩ := of_drop_eq_cons hrest.symm
    by_cases hd : d = '\n'
    · subst hd
      constructor <;> simp only [Position.after, if_true]
      · exact hdrop.symm
      · rw [htake, hline, List.count_append, List.count_singleton_self]
        omega
      · rw [htake, lastLine_newline, hlength]
        omega
    · constructor <;> simp only [Position.after, if_neg hd]
      · exact hdrop.symm
      · rw [htake, hline, List.count_append, List.count_singleton, if_neg (by simpa using hd),
          Nat.add_zero]
      · rw [htake, lastLine_concat hd, hcolumn]
        omega

end Bearings

/-! ### Steps -/

/-- Some steps lead from one cursor to another. -/
def Ahead (c c' : Cursor) : Prop := ∃ n, advance^[n] c = c'

theorem Ahead.refl (c : Cursor) : Ahead c c := ⟨0, rfl⟩

theorem Ahead.trans {c c₁ c' : Cursor} (h : Ahead c c₁) (h' : Ahead c₁ c') : Ahead c c' := by
  obtain ⟨m, rfl⟩ := h
  obtain ⟨n, rfl⟩ := h'
  exact ⟨n + m, Function.iterate_add_apply _ n m c⟩

theorem ahead_advance (c : Cursor) : Ahead c c.advance := ⟨1, rfl⟩

/-- A move over characters that exist is some steps. -/
theorem ahead_pass {c : Cursor} {n : Nat} (hn : n ≤ c.rest.length) : Ahead c (c.pass n) := by
  induction n generalizing c with
  | zero => exact c.pass_zero ▸ .refl c
  | succ n ih =>
    have hne : c.rest ≠ [] := List.ne_nil_of_length_pos (by omega)
    have hstep := c.ahead_advance
    rw [advance_eq_pass hne] at hstep
    have hrest : n ≤ (c.pass 1).rest.length := by
      rw [rest_pass, List.length_drop]
      omega
    have hmove := ih hrest
    rw [pass_pass, Nat.add_comm] at hmove
    exact hstep.trans hmove

theorem Ahead.isIn {text : List Char} {c c' : Cursor} (h : Ahead c c') (hc : c.IsIn text) :
    c'.IsIn text := by
  obtain ⟨n, rfl⟩ := h
  induction n with
  | zero => exact hc
  | succ n ih =>
    rw [Function.iterate_succ_apply']
    exact ih.advance

theorem offset_iterate_advance (c : Cursor) (n : Nat) :
    (advance^[n] c).offset = c.offset + n := by
  induction n with
  | zero => rfl
  | succ n ih => rw [Function.iterate_succ_apply', offset_advance, ih, Nat.add_assoc]

theorem Ahead.offset_le {c c' : Cursor} (h : Ahead c c') : c.offset ≤ c'.offset := by
  obtain ⟨n, rfl⟩ := h
  rw [offset_iterate_advance]
  exact Nat.le_add_right _ _

/-- Only the cursor itself is no step further. -/
theorem Ahead.offset_lt {c c' : Cursor} (h : Ahead c c') (hne : c' ≠ c) : c.offset < c'.offset := by
  obtain ⟨n, rfl⟩ := h
  cases n with
  | zero => exact absurd rfl hne
  | succ n =>
    rw [offset_iterate_advance]
    omega

end Cursor

namespace Lexer

open Cursor

/-! ### Readings as steps -/

/-- What is made of a reading does not matter to the cursor. -/
theorem stateOf_map {α β : Type} (f : α → β) (x : Lexer α) (c : Cursor) :
    stateOf (EStateM.map f x c) = stateOf (x c) := by
  unfold EStateM.map
  split
  · rename_i h
    rw [h]
    rfl
  · rename_i h
    rw [h]
    rfl

theorem commentLength_le (cs : List Char) : commentLength cs ≤ cs.length := by
  have hle : (cs.takeWhile (· != '\n')).length ≤ cs.length :=
    (List.takeWhile_sublist _).length_le
  unfold commentLength
  dsimp only
  split
  · assumption
  · exact hle

theorem ahead_takeWhile (c : Cursor) (p : Char → Bool) :
    Ahead c (c.pass (c.rest.takeWhile p).length) :=
  ahead_pass (List.takeWhile_sublist p).length_le

theorem ahead_number (c : Cursor) : Ahead c (stateOf (number c)) := by
  have hdigits := ahead_takeWhile c Char.isDigit
  unfold number
  dsimp only
  split
  · exact hdigits.trans (ahead_takeWhile _ _)
  · split
    · exact hdigits
    · split
      · exact hdigits
      · split
        · exact hdigits
        · exact hdigits

theorem ahead_word (c : Cursor) : Ahead c (stateOf (word c)) := by
  unfold word
  split
  · exact c.ahead_advance
  · rename_i d ds hr
    refine ahead_pass ?_
    rw [hr, List.length_cons]
    exact Nat.succ_le_succ (List.takeWhile_sublist _).length_le

theorem ahead_lexeme (c : Cursor) : Ahead c (stateOf (lexeme c)) := by
  unfold lexeme
  split
  · exact .refl c
  · split
    · rename_i s hs
      refine ahead_pass ?_
      rw [← String.length_toList]
      exact (Symbol.prefix_of_scan? hs).length_le
    · split
      · rw [stateOf_map]
        exact ahead_number c
      · split
        · rw [stateOf_map]
          exact ahead_word c
        · exact .refl c

theorem ahead_next (c : Cursor) : Ahead c (stateOf (next c)) :=
  (ahead_pass (triviaLength_le false c.rest)).trans (ahead_lexeme c.skipTrivia)

theorem ahead_run (c : Cursor) : Ahead c (run c).cursor := by
  fun_induction run c with
  | case1 c e c' h =>
    have hnext := ahead_next c
    rwa [h] at hnext
  | case2 c t c' h ht =>
    have hnext := ahead_next c
    rwa [h] at hnext
  | case3 c t c' h ht r ih =>
    have hnext := ahead_next c
    rw [h] at hnext
    exact hnext.trans ih

/-! ### Requests -/

/-- What can be asked of a cursor. -/
inductive Request where
  | advance
  | following
  | skipBlanks
  | skipComment
  | number
  | word
  | next
  | tokens
  deriving DecidableEq, Repr

/-- The cursor behind a request, whether it fails or not. -/
def serve (c : Cursor) : Request → Cursor
  | .advance => c.advance
  | .following => c
  | .skipBlanks => c.skipBlanks
  | .skipComment => c.skipComment
  | .number => stateOf (number c)
  | .word => stateOf (word c)
  | .next => stateOf (next c)
  | .tokens => stateOf (tokens c)

/-- The cursor behind some requests. -/
def serveAll (c : Cursor) (rs : List Request) : Cursor := rs.foldl serve c

/-- A request does nothing to a cursor but let it take some steps. -/
theorem ahead_serve (c : Cursor) (r : Request) : Ahead c (serve c r) := by
  cases r with
  | advance => exact c.ahead_advance
  | following => exact .refl c
  | skipBlanks => exact ahead_takeWhile c _
  | skipComment => exact ahead_pass (commentLength_le c.rest)
  | number => exact ahead_number c
  | word => exact ahead_word c
  | next => exact ahead_next c
  | tokens =>
    have hrun := ahead_run c
    unfold serve tokens
    dsimp only
    split
    · exact hrun
    · exact hrun

theorem ahead_serveAll (c : Cursor) (rs : List Request) : Ahead c (serveAll c rs) := by
  induction rs generalizing c with
  | nil => exact .refl c
  | cons r rs ih => exact (ahead_serve c r).trans (ih (serve c r))

/-- Whatever was asked of the cursor of a text, it knows where it is: it has the character at its
    offset under it, its line is one more than the newlines in front of it, and its column one more
    than the steps from where this line begins. No request leads it back, a token leads it on, and
    where no token begins it stays in front of the character that it complains about. -/
theorem serveAll_bearings (s : String) (rs : List Request) :
    let text := s.toList
    let c := serveAll (Cursor.ofText s) rs
    (c.current? = text[c.offset]? ∧ c.following? = text[c.offset + 1]? ∧
      c.position.line = 1 + (text.take c.offset).count '\n' ∧
      c.position.column = 1 + c.offset - Text.lastLine (text.take c.offset)) ∧
    (∀ r, c.offset ≤ (serve c r).offset) ∧
    (∀ t c', next c = .ok t c' → t.kind ≠ .endOfInput → c.offset < c'.offset) ∧
    ∀ d p c', next c = .error (.unexpectedChar d p) c' →
      c'.current? = some d ∧ c'.position = p ∧ text[c'.offset]? = some d := by
  intro text c
  have hc : c.IsIn text := (ahead_serveAll _ rs).isIn (isIn_ofList text)
  refine ⟨⟨hc.current?_eq, hc.following?_eq, hc.line_eq, hc.column_eq⟩,
    fun r => (ahead_serve c r).offset_le, fun t c' hnext ht => ?_, fun d p c' hnext => ?_⟩
  · have hahead := ahead_next c
    rw [hnext] at hahead
    refine hahead.offset_lt fun heq : c' = c => ?_
    have hless := length_next_lt hnext ht
    rw [heq] at hless
    exact Nat.lt_irrefl _ hless
  · have hskip : c.skipTrivia.IsIn text := (ahead_pass (triviaLength_le false c.rest)).isIn hc
    cases Lexical.refusal_lexeme hnext with
    | character hcurrent => exact ⟨hcurrent, rfl, hskip.current?_eq ▸ hcurrent⟩

/-- In the text `7 // x`, a newline and `$`, the second token is refused, and a step beyond the end is
    counted. -/
theorem serveAll_bearings_dollar :
    let c := serveAll (Cursor.ofText "7 // x\n$") [.next]
    (∃ t c', next (Cursor.ofText "7 // x\n$") = .ok t c' ∧ t.kind ≠ .endOfInput ∧ 0 < c'.offset) ∧
    (∃ c', next c = .error (.unexpectedChar '$' ⟨2, 1⟩) c' ∧ c'.current? = some '$' ∧
      c'.position = ⟨2, 1⟩) ∧
    (serveAll c [.next, .advance, .advance]).position = ⟨2, 3⟩ := by
  intro c
  refine ⟨⟨⟨.integer, .number 7, ⟨1, 1⟩⟩, c, rfl, by decide, ?_⟩, ?_, by decide⟩
  · exact (serveAll_bearings "7 // x\n$" []).2.2.1 _ c rfl (by decide)
  · obtain ⟨hcurrent, hposition, -⟩ :=
      (serveAll_bearings "7 // x\n$" [.next]).2.2.2 '$' ⟨2, 1⟩ (stateOf (next c)) rfl
    exact ⟨stateOf (next c), rfl, hcurrent, hposition⟩

end Lexer
end ExprLang

import ExprLang.Position
import ExprLang.Text.Blank
import ExprLang.Text.Identifier

/-! A cursor in a source text.

    A cursor holds the characters that are still to be read, how many steps were taken and the
    position that they lead to. A step beyond the end reads nothing but is counted, in the offset
    and in the column. What may be skipped between tokens is measured on the characters alone
    (`triviaLength`), and the cursor then moves over it in one go. -/

namespace ExprLang

/-- The rest of a text, the number of steps taken so far, and the position they lead to. -/
structure Cursor where
  rest : List Char
  offset : Nat
  position : Position
  deriving DecidableEq, Repr

namespace Cursor

/-- The cursor in front of a text. -/
def ofList (cs : List Char) : Cursor := ⟨cs, 0, Position.start⟩

/-- The cursor in front of a text. -/
def ofText (s : String) : Cursor := ofList s.toList

/-- The character under the cursor. -/
def current? (c : Cursor) : Option Char := c.rest.head?

/-- The character behind the one under the cursor. -/
def following? (c : Cursor) : Option Char := c.rest.tail.head?

/-- One step forward. -/
def advance (c : Cursor) : Cursor :=
  match c.rest with
  | [] => ⟨[], c.offset + 1, ⟨c.position.line, c.position.column + 1⟩⟩
  | d :: rest => ⟨rest, c.offset + 1, c.position.after d⟩

/-- Forward over the next `n` characters, of which there are as many. -/
def pass (c : Cursor) (n : Nat) : Cursor :=
  ⟨c.rest.drop n, c.offset + n, c.position.afterAll (c.rest.take n)⟩

/-- How many characters from here on are blanks or stand in comments. A comment begins with two
    slashes and ends with its newline; `inComment` says whether one is open. -/
def triviaLength : (inComment : Bool) → List Char → Nat
  | _, [] => 0
  | true, c :: cs => 1 + triviaLength (c != '\n') cs
  | false, '/' :: '/' :: cs => 2 + triviaLength true cs
  | false, c :: cs => if Text.isBlank c then 1 + triviaLength false cs else 0

/-- How many characters a comment still has, its newline included. -/
def commentLength (cs : List Char) : Nat :=
  let n := (cs.takeWhile (· != '\n')).length
  if n < cs.length then n + 1 else n

/-- Forward over the blanks that stand here. -/
def skipBlanks (c : Cursor) : Cursor := c.pass (c.rest.takeWhile Text.isBlank).length

/-- Forward to the end of the line and over its newline. -/
def skipComment (c : Cursor) : Cursor := c.pass (commentLength c.rest)

/-- Forward over blanks and comments. -/
def skipTrivia (c : Cursor) : Cursor := c.pass (triviaLength false c.rest)

@[simp] theorem pass_zero (c : Cursor) : c.pass 0 = c := by simp [pass]

@[simp] theorem rest_pass (c : Cursor) (n : Nat) : (c.pass n).rest = c.rest.drop n := rfl

/-- Two moves forward are one. -/
theorem pass_pass (c : Cursor) (m n : Nat) : (c.pass m).pass n = c.pass (m + n) := by
  simp only [pass, List.drop_drop, Nat.add_assoc, mk.injEq, true_and]
  rw [← Position.afterAll_append, ← List.take_add]

/-- A step onto a character that exists is a move over it. -/
theorem advance_eq_pass {c : Cursor} (h : c.rest ≠ []) : c.advance = c.pass 1 := by
  unfold advance pass
  cases hr : c.rest with
  | nil => exact absurd hr h
  | cons d rest => rfl

theorem triviaLength_le : ∀ (b : Bool) (cs : List Char), triviaLength b cs ≤ cs.length := by
  intro b cs
  fun_induction triviaLength b cs with
  | case1 => exact Nat.le_refl _
  | case2 c cs ih => simp only [List.length_cons]; omega
  | case3 cs ih => simp only [List.length_cons]; omega
  | case4 c cs _ _ ih => simp only [List.length_cons]; omega
  | case5 => exact Nat.zero_le _

theorem length_rest_pass_le (c : Cursor) (n : Nat) : (c.pass n).rest.length ≤ c.rest.length := by
  simp only [rest_pass, List.length_drop]
  omega

end Cursor
end ExprLang

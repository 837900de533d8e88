import ExprLang.Cursor

/-! Places in a text.

    A place is told by the characters in front of it. The position that a cursor has reached is
    found by going through these characters one by one; `Position.behind` says what it comes to:
    the newlines in front of the place and the characters behind the last of them, both counted
    from one. -/

namespace ExprLang

namespace Position

/-- The position behind some characters of a text: its line is one more than their newlines, and
    its column one more than the characters behind the last newline. -/
def behind (cs : List Char) : Position :=
  ⟨1 + cs.count '\n', 1 + (cs.reverse.takeWhile (· != '\n')).length⟩

theorem behind_concat (cs : List Char) (c : Char) : behind (cs ++ [c]) = (behind cs).after c := by
  by_cases hc : c = '\n'
  · subst hc
    simp only [behind, after, if_true, List.count_append, List.count_singleton_self,
      List.reverse_append, List.reverse_singleton, List.singleton_append, mk.injEq]
    constructor
    · push_cast
      omega
    · simp
  · simp only [behind, after, if_neg hc, List.count_append, List.reverse_append,
      List.reverse_singleton, List.singleton_append, mk.injEq]
    constructor
    · simp [hc]
    · simp only [List.takeWhile_cons, bne_iff_ne, ne_eq, hc, not_false_eq_true, if_true,
        List.length_cons]
      push_cast
      omega

/-- Going through some characters of a text comes to the position behind them. -/
theorem behind_afterAll (cs ds : List Char) : (behind cs).afterAll ds = behind (cs ++ ds) := by
  induction ds generalizing cs with
  | nil => rw [afterAll_nil, List.append_nil]
  | cons d ds ih => rw [afterAll_cons, ← behind_concat, ih, List.append_assoc, List.singleton_append]

theorem one_le_line_behind (cs : List Char) : 1 ≤ (behind cs).line := by
  simp only [behind]
  omega

theorem one_le_column_behind (cs : List Char) : 1 ≤ (behind cs).column := by
  simp only [behind]
  omega

end Position

namespace Cursor

/-- The cursor in a text, with the characters `before` behind it and `rest` still to be read. -/
def between (before rest : List Char) : Cursor := ⟨rest, before.length, .behind before⟩

theorem ofText_eq_between (s : String) : ofText s = between [] s.toList := rfl

@[simp] theorem rest_between (before rest : List Char) : (between before rest).rest = rest := rfl

@[simp] theorem position_between (before rest : List Char) :
    (between before rest).position = .behind before := rfl

/-- A move over some characters puts them behind the cursor. -/
theorem pass_between (before cs rest : List Char) :
    (between before (cs ++ rest)).pass cs.length = between (before ++ cs) rest := by
  simp only [between, pass, List.drop_left, List.take_left, List.length_append,
    Position.behind_afterAll]

end Cursor
end ExprLang

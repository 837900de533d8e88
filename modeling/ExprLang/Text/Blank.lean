/-! Blank characters.

    The blanks are the characters of white space and the separators of files, groups, records and
    units. They hold every blank that `Char.isWhitespace` knows. -/

namespace ExprLang.Text

/-- The ranges of code points, both ends included, that separate words and mean nothing. -/
def blankRanges : List (Nat × Nat) :=
  [(0x09, 0x0D), (0x1C, 0x20), (0x85, 0x85), (0xA0, 0xA0), (0x1680, 0x1680), (0x2000, 0x200A),
   (0x2028, 0x2029), (0x202F, 0x202F), (0x205F, 0x205F), (0x3000, 0x3000)]

/-- A blank character. -/
def isBlank (c : Char) : Bool := blankRanges.any fun r => r.1 ≤ c.toNat && c.toNat ≤ r.2

theorem isBlank_newline : isBlank '\n' = true := by decide

theorem isBlank_slash : isBlank '/' = false := by decide

theorem isBlank_of_isWhitespace {c : Char} (h : c.isWhitespace = true) : isBlank c = true := by
  simp only [Char.isWhitespace, Bool.or_eq_true, decide_eq_true_eq] at h
  rcases h with ((h | h) | h) | h <;> subst h <;> decide

end ExprLang.Text

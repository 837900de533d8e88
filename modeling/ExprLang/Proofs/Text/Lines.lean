import ExprLang.Position
import ExprLang.Value

/-! The lines of a text.

    Lines are what newlines separate. Texts without a newline, of which there is at least one, are
    the lines of what is made of them with a newline between any two. Numbers and positions are
    written without a newline, and between quotes there is none either. -/

namespace ExprLang

namespace Text

/-- The lines of a text. -/
def lines (s : String) : List String := (s.toList.splitOn '\n').map String.ofList

theorem lines_intercalate {ls : List String} (hne : ls ≠ [])
    (h : ∀ l ∈ ls, '\n' ∉ l.toList) : lines ("\n".intercalate ls) = ls := by
  have hsep : ∀ cs ∈ ls.map String.toList, '\n' ∉ cs := by
    intro cs hcs
    obtain ⟨l, hl, rfl⟩ := List.mem_map.mp hcs
    exact h l hl
  have hback : (ls.map String.toList).map String.ofList = ls := by
    rw [List.map_map]
    exact List.map_id'' (fun _ => String.ofList_toList) ls
  rw [lines, String.toList_intercalate]
  change (List.splitOn '\n' (['\n'].intercalate (ls.map String.toList))).map String.ofList = ls
  rw [List.splitOn_intercalate _ hsep (by simpa using hne), hback]

theorem newline_not_mem_append {s t : String} :
    '\n' ∉ (s ++ t).toList ↔ '\n' ∉ s.toList ∧ '\n' ∉ t.toList := by
  rw [String.toList_append, List.mem_append, not_or]

/-! ### Numbers and quotes -/

theorem newline_not_mem_toDigits (base n : Nat) : '\n' ∉ Nat.toDigits base n := by
  have hcore : ∀ (fuel n : Nat) (ds : List Char), '\n' ∉ ds →
      '\n' ∉ Nat.toDigitsCore base fuel n ds := by
    intro fuel
    induction fuel with
    | zero => exact fun _ _ hds => hds
    | succ fuel ih =>
      intro n ds hds
      have hcons : '\n' ∉ Nat.digitChar (n % base) :: ds := by
        rw [List.mem_cons, not_or]
        exact ⟨(Nat.digitChar_ne '\n' rfl).symm, hds⟩
      rw [Nat.toDigitsCore]
      split
      · exact hcons
      · exact ih _ _ hcons
  exact hcore _ _ _ List.not_mem_nil

/-- A number is written in digits, behind a minus if it is below zero. -/
theorem isDigit_or_minus_of_mem_toString {n : Int} {c : Char} (h : c ∈ (toString n).toList) :
    c.isDigit = true ∨ c = '-' := by
  have hnat {m : Nat} (hc : c ∈ m.repr.toList) : c.isDigit = true := by
    rw [Nat.toList_repr] at hc
    exact Nat.isDigit_of_mem_toDigits (by decide) (by decide) hc
  rw [Int.toString_eq_repr, Int.repr_eq_if] at h
  split at h
  · exact .inl (hnat h)
  · rw [String.toList_append, List.mem_append] at h
    rcases h with hminus | hdigit
    · exact .inr (List.mem_singleton.mp hminus)
    · exact .inl (hnat hdigit)

theorem newline_not_mem_toString (n : Int) : '\n' ∉ (toString n).toList := by
  intro h
  rcases isDigit_or_minus_of_mem_toString h with h | h <;> exact absurd h (by decide)

theorem newline_not_mem_escapeCode (n : Nat) : '\n' ∉ escapeCode n := by
  have hdigits : ∀ width, '\n' ∉ hexadecimal width n := by
    intro width hmem
    rcases List.mem_append.mp hmem with hzero | hdigit
    · exact absurd (List.eq_of_mem_replicate hzero) (by decide)
    · exact newline_not_mem_toDigits 16 n hdigit
  unfold escapeCode
  split
  · simp [hdigits]
  split <;> simp [hdigits]

theorem newline_not_mem_escapeChar {q : Char} (hq : q ≠ '\n') (c : Char) :
    '\n' ∉ escapeChar q c := by
  unfold escapeChar
  split
  · rename_i hc
    have hne : c ≠ '\n' := by
      rintro rfl
      rcases hc with hc | hc
      · exact hq hc.symm
      · cases hc
    simp [hne.symm]
  split
  · decide
  split
  · decide
  rename_i hne
  split
  · decide
  split
  · simpa using Ne.symm hne
  · exact newline_not_mem_escapeCode _

/-- Between quotes a newline is escaped. -/
theorem newline_not_mem_quoted (s : String) : '\n' ∉ (quoted s).toList := by
  have hq : quoteMark s.toList ≠ '\n' := by
    unfold quoteMark
    split <;> decide
  rw [quoted, String.toList_ofList]
  simp only [List.cons_append, List.mem_cons, List.mem_append, List.mem_flatMap, not_or]
  refine ⟨hq.symm, ?_, hq.symm, List.not_mem_nil⟩
  rintro ⟨c, -, hmem⟩
  exact newline_not_mem_escapeChar hq c hmem

end Text

/-- A value is written without a newline, unless it is a text that has one. -/
theorem Value.newline_not_mem_plain {v : Value} (h : ∀ s, v = text s → '\n' ∉ s.toList) :
    '\n' ∉ v.plain.toList := by
  cases v with
  | absent => decide
  | text s => exact h s rfl
  | number n => exact Text.newline_not_mem_toString n

theorem Position.newline_not_mem_text (p : Position) : '\n' ∉ p.text.toList :=
  Text.newline_not_mem_append.mpr ⟨Text.newline_not_mem_append.mpr
    ⟨Text.newline_not_mem_toString _, by decide⟩, Text.newline_not_mem_toString _⟩

end ExprLang

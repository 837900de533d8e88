import ExprLang.Failure
import ExprLang.Proofs.Token.Tokenization

/-! Runs of digits.

    The value of a run of digits says whether it is a number: one that fits has a token, and one
    that is too large is reported as malformed. This holds of all runs that are converted at all
    (`tokensOf_digits`). A longer one is not looked at, be it a row of zeros, and the failure
    belongs to no diagnostic; no other failure of the lexer is of this kind. -/

namespace ExprLang.Lexical

open Text Lexer

/-- What the value of a run of digits asks for: the number, or the report that it is too large. -/
def numeral (ds : List Char) : Except LexError (List Token) :=
  if decimalValue ds ≤ Word64.maxValue then
    .ok [⟨.integer, .number (decimalValue ds), .start⟩, ⟨.endOfInput, .absent, .behind ds⟩]
  else .error (.malformedNumber (String.ofList ds) .range .start)

/-- A failure of the lexer is a lexical diagnostic. -/
def IsLexical (e : LexError) : Prop := ∃ d, e.failure = .reported d ∧ d.cause.stage = .lexical

theorem Fault.isLexical {cs : List Char} {report : Position → LexError} (h : Fault cs report)
    (p : Position) : IsLexical (report p) := by
  cases h with
  | noLexeme | letters | tooLarge => exact ⟨_, rfl, rfl⟩

theorem skips_of_isDigits {ds : List Char} (hds : IsDigits ds) : Skips [] ds :=
  ⟨.nil _, List.append_nil ds ▸ significant_of_isDigits hds []⟩

/-- Every failure of the lexer is a lexical diagnostic, unless a run of digits is too long. -/
theorem isLexical_or_tooManyDigits {s : String} {e : LexError}
    (h : (run (Cursor.ofText s)).error? = some e) : IsLexical e ∨ ∃ ds, ds <:+: s.toList ∧
      IsDigits ds ∧ maxDigits < ds.length ∧ e = .tooManyDigits ds.length := by
  obtain ⟨before, us, last, gap, left, hdiv, _, hend, _⟩ := exists_division s.toList
  rw [← Cursor.ofText_eq_between, h] at hend
  cases hend with
  | fault hfault => exact .inl (hfault.isLexical _)
  | @tooManyDigits ds rest hds hlong =>
    exact .inr ⟨ds, ⟨before ++ gap, rest, by rw [hdiv.eq_append]; simp⟩, hds, hlong, rfl⟩

/-- A run of digits that is too long is not converted. -/
theorem tokensOf_tooManyDigits {ds : List Char} (hds : IsDigits ds) (hlong : maxDigits < ds.length) :
    tokensOf (String.ofList ds) = .error (.tooManyDigits ds.length) := by
  obtain ⟨d, more, hcons⟩ := List.exists_cons_of_ne_nil hds.1
  have hd : d.isDigit = true := hds.2 d (by simp [hcons])
  have hnext : next (.between [] ds) =
      EStateM.map (fun n => ⟨.integer, .number n, .start⟩) number (.between [] ds) := by
    rw [next_of_significant (skips_of_isDigits hds).2]
    exact lexeme_of_isDigit hcons hd
  rw [EStateM.map, number_of_breaks (List.append_nil ds).symm hds breaks_nil, if_pos hlong] at hnext
  rw [tokensOf_eq_error_iff, Cursor.ofText_eq_between, String.toList_ofList, run, hnext]

/-- A text of digits that are not too many is read as its value says. -/
theorem tokensOf_eq_numeral {ds : List Char} (hds : IsDigits ds) (hlong : ds.length ≤ maxDigits) :
    tokensOf (String.ofList ds) = numeral ds := by
  have hdigits := digitRunsWithin_of_length_le hlong
  unfold numeral
  by_cases hle : decimalValue ds ≤ Word64.maxValue
  · have hskips : Skips [] (ds ++ []) := by
      rw [List.append_nil]
      exact skips_of_isDigits hds
    have hdiv : Divides ds ([] ++ [] ++ ds) _ [] :=
      .token (by simpa using .start) hskips (munch_number hds breaks_nil hle)
    rw [if_pos hle, tokensOf_eq_ok_iff, Cursor.ofText_eq_between, String.toList_ofList]
    exact hdiv.run_of_nil ⟨.nil [], significant_nil⟩ hdigits
  · have hfault : Fault (ds ++ []) _ := .tooLarge hds breaks_nil (Int.not_le.mp hle)
    rw [List.append_nil] at hfault
    rw [if_neg hle, tokensOf_eq_error_iff, Cursor.ofText_eq_between, String.toList_ofList]
    exact Divides.start.run_of_fault (skips_of_isDigits hds) hfault hdigits

theorem tooManyDigits_ne_numeral (n : Nat) (ds : List Char) :
    .error (.tooManyDigits n) ≠ numeral ds := by
  unfold numeral
  split <;> exact nofun

/-- Every failure of the lexer is a lexical diagnostic, unless a run of digits is too long; and a
    text of digits is read as its value says exactly if it is not too long. -/
theorem tokensOf_digits {ds : List Char} (hds : IsDigits ds) :
    (∀ s e, tokensOf s = .error e → IsLexical e ∨ ∃ run, run <:+: s.toList ∧ IsDigits run ∧
      maxDigits < run.length ∧ e = .tooManyDigits run.length) ∧
    (tokensOf (String.ofList ds) = numeral ds ↔ ds.length ≤ maxDigits) := by
  constructor
  · intro s e he
    exact isLexical_or_tooManyDigits (tokensOf_eq_error_iff.mp he)
  · refine ⟨fun heq => Nat.not_lt.mp fun hlong => ?_, tokensOf_eq_numeral hds⟩
    rw [tokensOf_tooManyDigits hds hlong] at heq
    exact tooManyDigits_ne_numeral _ ds heq

/-- Leading zeros do not matter: `007` is seven. -/
theorem tokensOf_digits_seven : IsDigits ['0', '0', '7'] ∧ tokensOf "007" =
    .ok [⟨.integer, .number 7, ⟨1, 1⟩⟩, ⟨.endOfInput, .absent, ⟨1, 4⟩⟩] := by
  have hds : IsDigits ['0', '0', '7'] := ⟨by decide, List.all_eq_true.mp rfl⟩
  exact ⟨hds, (tokensOf_digits hds).2.mpr (by simp [maxDigits])⟩

theorem isDigits_zeros {n : Nat} (hn : n ≠ 0) : IsDigits (List.replicate n '0') := by
  refine ⟨by simpa using hn, fun d hd => ?_⟩
  rw [List.eq_of_mem_replicate hd]
  rfl

theorem decimalValue_zeros (n : Nat) : decimalValue (List.replicate n '0') = 0 := by
  unfold decimalValue
  induction n with
  | zero => rfl
  | succ n ih =>
    rw [List.replicate_succ, List.foldl_cons]
    exact ih

/-- Too many zeros are no number, though they are worth one, and no lexical diagnostic either. -/
theorem tokensOf_zeros : decimalValue (List.replicate 4301 '0') = 0 ∧
    tokensOf (String.ofList (List.replicate 4301 '0')) = .error (.tooManyDigits 4301) ∧
    tokensOf (String.ofList (List.replicate 4301 '0')) ≠ numeral (List.replicate 4301 '0') ∧
    ¬ IsLexical (.tooManyDigits 4301) := by
  have hlength : (List.replicate 4301 '0').length = 4301 := List.length_replicate
  have hlong : maxDigits < (List.replicate 4301 '0').length := by
    rw [hlength]
    decide
  have h := tokensOf_tooManyDigits (isDigits_zeros (n := 4301) (by decide)) hlong
  rw [hlength] at h
  exact ⟨decimalValue_zeros 4301, h, h ▸ tooManyDigits_ne_numeral 4301 _, fun ⟨_, hd, _⟩ => nomatch hd⟩

end ExprLang.Lexical

/-! Line ends.

    A carriage return, with or without a newline behind it, ends a line just as a newline does. -/

namespace ExprLang.Text

/-- A text with every line end written as one newline. -/
def normalizeNewlines : List Char → List Char
  | [] => []
  | '\r' :: '\n' :: cs => '\n' :: normalizeNewlines cs
  | '\r' :: cs => '\n' :: normalizeNewlines cs
  | c :: cs => c :: normalizeNewlines cs

/-- A text without carriage returns stays as it is. -/
theorem normalizeNewlines_eq_self (cs : List Char) (h : '\r' ∉ cs) : normalizeNewlines cs = cs := by
  induction cs with
  | nil => rfl
  | cons c cs ih =>
    simp only [List.mem_cons, not_or] at h
    rw [normalizeNewlines.eq_4 c cs (fun _ e _ => h.1 e.symm) (fun e => h.1 e.symm), ih h.2]

/-- No carriage return is left. -/
theorem not_mem_normalizeNewlines (cs : List Char) : '\r' ∉ normalizeNewlines cs := by
  fun_induction normalizeNewlines cs with
  | case1 => exact List.not_mem_nil
  | case2 cs ih => simpa using ih
  | case3 cs _ ih => simpa using ih
  | case4 c cs _ hc ih =>
    simp only [List.mem_cons, not_or]
    exact ⟨fun e => hc e.symm, ih⟩

end ExprLang.Text

import ExprLang.Proofs.Token.Munch

/-! What the lexer reads.

    The lexer skips the trivia at a place and then reads what the lexical grammar says: the end of
    the input, the longest lexeme, or a fault (`reading_lexeme`). The one thing that the grammar does
    not know is that very long runs of digits are not converted. Nothing else needs to be known of
    how single tokens are read: where a lexeme is the longest, its token is read
    (`lexeme_of_munch`). -/

namespace ExprLang.Lexical

open Text Lexer

/-- What can come of reading where a cursor stands. -/
inductive Reading (c : Cursor) : EStateM.Result LexError Cursor Token → Prop
  | endOfInput : c.rest = [] → Reading c (.ok ⟨.endOfInput, .absent, c.position⟩ c)
  | token {span rest : List Char} {kind : TokenKind} {value : Value} :
    c.rest = span ++ rest → Munch span rest kind value →
    Reading c (.ok ⟨kind, value, c.position⟩ (c.pass span.length))
  | fault {report : Position → LexError} {c' : Cursor} :
    Fault c.rest report → Reading c (.error (report c.position) c')
  | tooManyDigits {ds rest : List Char} {c' : Cursor} :
    c.rest = ds ++ rest → IsDigits ds → maxDigits < ds.length →
    Reading c (.error (.tooManyDigits ds.length) c')

section Readers

variable {c : Cursor} {d : Char} {cs ds rest : List Char}

/-- What stands behind some characters is what is left when they are passed. -/
theorem rest_pass_length (hc : c.rest = cs ++ rest) : (c.pass cs.length).rest = rest := by
  rw [Cursor.rest_pass, hc, List.drop_left]

/-- A run of digits with a word behind it is no number. -/
theorem number_of_isWord {w : String} (hc : c.rest = ds ++ (w.toList ++ rest)) (hds : IsDigits ds)
    (hw : IsWord w) (hrest : Breaks rest) :
    number c = .error (.malformedNumber (String.ofList ds ++ w) .letters c.position)
      (c.pass (ds.length + w.toList.length)) := by
  have hrun := takeWhile_append_eq hds.2 (isDigit_head_of_isWord hw rest)
  have hmore := takeWhile_append_eq hw.isIdentChar hrest
  obtain ⟨d, es, hes, hd, _⟩ := hw
  have hbehind : (w.toList ++ rest).head?.any isIdentStart = true := by
    rw [hes]
    exact hd
  unfold number
  simp only [hc, hrun, Cursor.current?, Cursor.rest_pass, List.drop_left, hbehind, if_true, hmore]
  rw [String.ofList_append, String.ofList_toList, Cursor.pass_pass]

/-- A run of digits with nothing behind it that goes on is converted unless it is too long, and then
    it has to fit. -/
theorem number_of_breaks (hc : c.rest = ds ++ rest) (hds : IsDigits ds) (hrest : Breaks rest) :
    number c =
      if maxDigits < ds.length then .error (.tooManyDigits ds.length) (c.pass ds.length)
      else if Word64.maxValue < decimalValue ds then
        .error (.malformedNumber (String.ofList ds) .range c.position) (c.pass ds.length)
      else .ok (decimalValue ds) (c.pass ds.length) := by
  have hrun := takeWhile_append_eq hds.2 hrest.isDigit
  have hbehind : ¬ rest.head?.any isIdentStart = true := by
    cases hd : rest.head? with
    | none => exact Bool.false_ne_true
    | some d => simp [isIdentStart_of_isIdentChar_eq_false (hrest d hd)]
  unfold number
  simp only [hc, hrun, Cursor.current?, Cursor.rest_pass, List.drop_left, if_neg hbehind,
    if_neg hds.1]

theorem word_of_isWord {w : String} (hc : c.rest = w.toList ++ rest) (hw : IsWord w)
    (hrest : Breaks rest) : word c = .ok w (c.pass w.toList.length) := by
  obtain ⟨d, ds, hds, _, hmore⟩ := hw
  unfold word
  simp only [hc, hds, List.cons_append, takeWhile_append_eq hmore hrest, List.length_cons]
  rw [← hds, String.ofList_toList]

theorem lexeme_of_nil (hc : c.rest = []) :
    lexeme c = .ok ⟨.endOfInput, .absent, c.position⟩ c := by
  unfold lexeme
  rw [hc]

theorem lexeme_of_isDigit (hc : c.rest = d :: cs) (hd : d.isDigit = true) :
    lexeme c = EStateM.map (fun n => ⟨.integer, .number n, c.position⟩) number c := by
  unfold lexeme
  simp only [hc, Symbol.scan?_of_isIdentChar (isIdentChar_of_isDigit hd), hd, if_true]

/-- What is read where a digit stands. -/
theorem reading_number (hc : c.rest = d :: cs) (hd : d.isDigit = true) :
    Reading c (lexeme c) := by
  rw [lexeme_of_isDigit hc hd]
  obtain ⟨ds, rest, heq, hds, hrest⟩ := exists_digits hd cs
  rw [heq] at hc
  rcases word_or_breaks hrest with ⟨w, more, rfl, hw, hmore⟩ | hbreaks
  · rw [EStateM.map, number_of_isWord hc hds hw hmore]
    exact .fault (hc ▸ .letters hds hw hmore)
  · rw [EStateM.map, number_of_breaks hc hds hbreaks]
    by_cases hlong : maxDigits < ds.length
    · rw [if_pos hlong]
      exact .tooManyDigits hc hds hlong
    · rw [if_neg hlong]
      by_cases hlarge : Word64.maxValue < decimalValue ds
      · rw [if_pos hlarge]
        exact .fault (hc ▸ .tooLarge hds hbreaks hlarge)
      · rw [if_neg hlarge]
        exact .token hc (munch_number hds hbreaks (Int.not_lt.mp hlarge))

/-- The lexer reads what the grammar says. -/
theorem reading_lexeme (c : Cursor) : Reading c (lexeme c) := by
  cases hc : c.rest with
  | nil =>
    rw [lexeme_of_nil hc]
    exact .endOfInput hc
  | cons d cs =>
    by_cases hdigit : d.isDigit = true
    · exact reading_number hc hdigit
    · unfold lexeme
      simp only [hc, if_neg hdigit]
      cases hscan : Symbol.scan? (d :: cs) with
      | some s =>
        obtain ⟨rest, heq, hmunch⟩ := munch_symbol hscan
        dsimp only
        rw [← String.length_toList]
        exact .token (hc.trans heq) hmunch
      | none =>
        dsimp only
        by_cases hstart : isIdentStart d = true
        · rw [if_pos hstart]
          obtain ⟨w, rest, heq, hw, hrest⟩ := exists_word hstart cs
          rw [EStateM.map, word_of_isWord (hc.trans heq) hw hrest]
          exact .token (hc.trans heq) (munch_word hw hrest)
        · rw [if_neg hstart]
          refine .fault (hc ▸ fault_noLexeme hscan ?_)
          exact isIdentChar_eq_false (Bool.eq_false_iff.mpr hstart) (Bool.eq_false_iff.mpr hdigit)

/-- The next token is read behind the trivia. -/
theorem next_of_skips {gap : List Char} (hc : c.rest = gap ++ rest) (h : Skips gap rest) :
    next c = lexeme (c.pass gap.length) := by
  rw [next, Cursor.skipTrivia, hc, triviaLength_eq h]

/-- What stands neither behind blanks nor behind comments is read at once. -/
theorem next_of_significant (h : Significant c.rest) : next c = lexeme c := by
  rw [next_of_skips rfl ⟨.nil _, h⟩, List.length_nil, Cursor.pass_zero]

/-- A blank in front of a token does not matter. -/
theorem next_blank (hc : c.rest = d :: cs) (hd : isBlank d = true) : next c = next (c.pass 1) := by
  have hrest : (c.pass 1).rest = cs := by rw [Cursor.rest_pass, hc]; rfl
  rw [next, next, Cursor.skipTrivia, Cursor.skipTrivia, hrest, hc, triviaLength_blank hd,
    Cursor.pass_pass]

theorem next_of_rest_eq_nil (hc : c.rest = []) :
    next c = .ok ⟨.endOfInput, .absent, c.position⟩ c := by
  rw [next_of_significant (hc ▸ significant_nil), lexeme_of_nil hc]

end Readers

/-! ### The grammar settles what is read -/

section Settled

variable {c : Cursor} {span rest : List Char} {kind : TokenKind} {value : Value}

/-- No run of digits is longer than the longest lexeme where it begins. -/
theorem Munch.digits_le {ds more : List Char} (h : Munch span rest kind value)
    (heq : span ++ rest = ds ++ more) (hds : IsDigits ds) :
    IsDigits span ∧ ds.length ≤ span.length := by
  refine ⟨?_, h.longest ds _ _ ⟨more, heq.symm⟩ (.number hds)⟩
  -- Both begin with the same digit, and a lexeme that begins with a digit is a number.
  obtain ⟨d, es, rfl⟩ := List.exists_cons_of_ne_nil h.lexeme.ne_nil
  obtain ⟨e, ds', rfl⟩ := List.exists_cons_of_ne_nil hds.1
  injection heq with hd _
  exact (h.lexeme.number_of_isDigit (hd ▸ hds.2 e (by simp))).1

/-- Where a lexeme is the longest, its token is read, unless it is a number with too many digits. -/
theorem lexeme_of_munch (hc : c.rest = span ++ rest) (h : Munch span rest kind value)
    (hlong : IsDigits span → span.length ≤ maxDigits) :
    lexeme c = .ok ⟨kind, value, c.position⟩ (c.pass span.length) := by
  have hread := reading_lexeme c
  generalize lexeme c = r at hread
  cases hread with
  | endOfInput hnil =>
    exact absurd (hc.symm.trans hnil) (List.append_ne_nil_of_left_ne_nil h.lexeme.ne_nil _)
  | token hc' h' =>
    obtain ⟨rfl, rfl, rfl, rfl⟩ := h.unique h' (hc.symm.trans hc')
    rfl
  | fault hfault => exact absurd (hc ▸ hfault) (h.faultless _)
  | tooManyDigits hc' hds hmany =>
    obtain ⟨hspan, hle⟩ := h.digits_le (hc.symm.trans hc') hds
    have := hlong hspan
    omega

/-- Where a text has a fault, the fault is reported, unless too many digits stand there. -/
theorem lexeme_of_fault {report : Position → LexError} (hc : c.rest = rest) (h : Fault rest report)
    (hdigits : DigitRunsWithin maxDigits rest) :
    ∃ c', lexeme c = .error (report c.position) c' := by
  subst hc
  have hread := reading_lexeme c
  generalize lexeme c = r at hread
  cases hread with
  | endOfInput hnil => exact absurd hnil h.ne_nil
  | token hc hmunch => exact absurd (hc ▸ h) (hmunch.faultless _)
  | fault h' =>
    rw [h.unique h']
    exact ⟨_, rfl⟩
  | @tooManyDigits ds rest _ hc hds hlong =>
    have := hdigits ds (hc ▸ (List.prefix_append ds rest).isInfix) hds.2
    omega

end Settled
end ExprLang.Lexical

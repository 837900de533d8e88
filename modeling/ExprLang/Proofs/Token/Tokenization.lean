import ExprLang.Proofs.Token.Lookahead
import ExprLang.Proofs.Token.Place
import ExprLang.Proofs.Token.Reading

/-! Tokens and the division of a text into lexemes.

    The lexer goes through a text as the lexical grammar divides it. The tokens of a text are the
    lexemes into which it is divided, each at the position behind the characters in front of it,
    and a text cannot be read exactly if its division ends at a fault (`tokensOf_divides`). -/

namespace ExprLang.Lexical

open Text Lexer

/-! ### The division of a text -/

/-- The characters `before` of a text are divided into the lexemes of the tokens `ts`, each behind
    all the trivia in front of it, and `rest` is what is left of the text. -/
inductive Divides (text : List Char) : List Char → List Token → List Char → Prop
  | start : Divides text [] [] text
  | token {before gap span rest : List Char} {ts : List Token} {kind : TokenKind} {value : Value} :
    Divides text before ts (gap ++ (span ++ rest)) → Skips gap (span ++ rest) →
    Munch span rest kind value →
    Divides text (before ++ gap ++ span) (ts ++ [⟨kind, value, .behind (before ++ gap)⟩]) rest

/-- How the division of a text ends behind the characters `before`, in front of `rest`: the last
    token, if there is one, and the failure, if there is one. -/
inductive Ending (before : List Char) : List Char → List Token → Option LexError → Prop
  | endOfInput : Ending before [] [⟨.endOfInput, .absent, .behind before⟩] none
  | fault {rest : List Char} {report : Position → LexError} :
    Fault rest report → Ending before rest [] (some (report (.behind before)))
  | tooManyDigits {ds rest : List Char} : IsDigits ds → maxDigits < ds.length →
    Ending before (ds ++ rest) [] (some (.tooManyDigits ds.length))

section Divides

variable {text before gap rest : List Char} {ts : List Token}

/-- The next token is read behind the trivia. -/
theorem next_between (before : List Char) (h : Skips gap rest) :
    next (.between before (gap ++ rest)) = lexeme (.between (before ++ gap) rest) := by
  rw [next_of_skips rfl h, Cursor.pass_between]

/-- A division loses no character. -/
theorem Divides.eq_append (h : Divides text before ts rest) : text = before ++ rest := by
  induction h with
  | start => rfl
  | token _ _ _ ih => rw [ih, List.append_assoc, List.append_assoc]

theorem Divides.ne_endOfInput (h : Divides text before ts rest) :
    ∀ t ∈ ts, t.kind ≠ .endOfInput := by
  induction h with
  | start => exact fun t ht => absurd ht List.not_mem_nil
  | token _ _ hmunch ih =>
    intro t ht
    rcases List.mem_append.mp ht with ht | ht
    · exact ih t ht
    · rw [List.mem_singleton.mp ht]
      exact hmunch.lexeme.ne_endOfInput

/-- What the lexer reads from some place in a text goes on with the division of the text, and ends
    where that ends. -/
theorem Divides.exists_ending (h : Divides text before ts rest) :
    ∃ before' us last gap left, Divides text before' (ts ++ us) (gap ++ left) ∧ Skips gap left ∧
      Ending (before' ++ gap) left last (run (.between before rest)).error? ∧
      (run (.between before rest)).tokens = us ++ last := by
  -- Every token takes characters, so the induction is on how many are left.
  induction hn : rest.length using Nat.strongRecOn generalizing before ts rest with
  | ind n ih =>
    subst hn
    obtain ⟨gap, left, rfl, hskips⟩ := exists_skips rest
    have hread := reading_lexeme (.between (before ++ gap) left)
    rw [← next_between before hskips] at hread
    rw [run]
    generalize next (.between before (gap ++ left)) = r at hread
    cases hread with
    | endOfInput hnil =>
      obtain rfl : left = [] := hnil
      exact ⟨before, [], _, gap, [], by rwa [List.append_nil], hskips, .endOfInput, rfl⟩
    | fault hfault =>
      exact ⟨before, [], [], gap, left, by rwa [List.append_nil], hskips, .fault hfault, rfl⟩
    | @tooManyDigits ds more _ hleft hds hlong =>
      obtain rfl : left = ds ++ more := hleft
      exact ⟨before, [], [], gap, _, by rwa [List.append_nil], hskips, .tooManyDigits hds hlong, rfl⟩
    | @token span rest kind value hleft hmunch =>
      obtain rfl : left = span ++ rest := hleft
      have hlength : rest.length < (gap ++ (span ++ rest)).length := by
        have := List.length_pos_iff.mpr hmunch.lexeme.ne_nil
        simp only [List.length_append]
        omega
      obtain ⟨before', us, last, gap', left, hdiv, hskips', hend, htok⟩ :=
        ih _ hlength (.token h hskips hmunch) rfl
      refine ⟨before', ⟨kind, value, .behind (before ++ gap)⟩ :: us, last, gap', left, ?_, hskips',
        ?_, ?_⟩
      · rwa [List.append_assoc] at hdiv
      · simpa only [dif_neg hmunch.lexeme.ne_endOfInput, Cursor.pass_between] using hend
      · simp only [dif_neg hmunch.lexeme.ne_endOfInput, Cursor.pass_between, htok, List.cons_append,
          Cursor.position_between]

/-- What is reported of a text, or the end of the input, comes behind a division of the whole text
    in front of it. -/
theorem exists_division (text : List Char) : ∃ before ts last gap left,
    Divides text before ts (gap ++ left) ∧ Skips gap left ∧
      Ending (before ++ gap) left last (run (.between [] text)).error? ∧
      (run (.between [] text)).tokens = ts ++ last := by
  have hstart : Divides text [] [] text := .start
  obtain ⟨before, ts, last, gap, left, hdiv, h⟩ := hstart.exists_ending
  exact ⟨before, ts, last, gap, left, by simpa using hdiv, h⟩

/-! ### The division settles what is read -/

/-- A lexeme behind trivia is taken as its token, unless it is a number with too many digits. -/
theorem takes_of_munch (before : List Char) {span : List Char} {kind : TokenKind} {value : Value}
    (hskips : Skips gap (span ++ rest)) (hmunch : Munch span rest kind value)
    (hlong : IsDigits span → span.length ≤ maxDigits) :
    TokenStream.Takes ⟨.between before (gap ++ (span ++ rest)), none⟩
      [⟨kind, value, .behind (before ++ gap)⟩] ⟨.between (before ++ gap ++ span) rest, none⟩ := by
  have hnext := lexeme_of_munch (Cursor.rest_between (before ++ gap) _) hmunch hlong
  rw [← next_between before hskips, Cursor.pass_between] at hnext
  refine .single ?_ hmunch.lexeme.ne_endOfInput
  rw [TokenStream.next_empty, hnext]
  rfl

/-- Behind nothing but trivia, the run ends with the end of the input. -/
theorem run_of_skips (before : List Char) (h : Skips gap []) :
    (run (.between before gap)).tokens = [⟨.endOfInput, .absent, .behind (before ++ gap)⟩] ∧
      (run (.between before gap)).error? = none := by
  have hnext := lexeme_of_nil (Cursor.rest_between (before ++ gap) [])
  rw [← next_between before h, List.append_nil] at hnext
  rw [run, hnext]
  exact ⟨rfl, rfl⟩

/-- The tokens of a division are taken one by one. -/
theorem Divides.takes (h : Divides text before ts rest) (hdigits : DigitRunsWithin maxDigits text) :
    TokenStream.Takes ⟨.between [] text, none⟩ ts ⟨.between before rest, none⟩ := by
  induction h with
  | start => exact .nil _
  | @token before gap span rest ts kind value h hskips hmunch ih =>
    have hlong : IsDigits span → span.length ≤ maxDigits := fun hspan =>
      hdigits span ⟨before ++ gap, rest, by rw [h.eq_append]; simp⟩ hspan.2
    exact ih.append (takes_of_munch before hskips hmunch hlong)

/-- The lexer reads the tokens of a division and goes on behind them. -/
theorem Divides.run (h : Divides text before ts rest) (hdigits : DigitRunsWithin maxDigits text) :
    (run (.between [] text)).tokens = ts ++ (run (.between before rest)).tokens ∧
      (run (.between [] text)).error? = (run (.between before rest)).error? := by
  obtain ⟨c, hc, htok, herr⟩ := (h.takes hdigits).run rfl
  injection hc with hc _
  subst hc
  exact ⟨htok, herr⟩

/-- A text that is divided to its end is read to its end. -/
theorem Divides.run_of_nil (h : Divides text before ts gap) (hskips : Skips gap [])
    (hdigits : DigitRunsWithin maxDigits text) :
    (Lexer.run (.between [] text)).tokens = ts ++ [⟨.endOfInput, .absent, .behind text⟩] ∧
      (Lexer.run (.between [] text)).error? = none := by
  obtain ⟨htok, herr⟩ := h.run hdigits
  rw [htok, herr, h.eq_append, (run_of_skips before hskips).1]
  exact ⟨rfl, (run_of_skips before hskips).2⟩

/-- A text whose division ends at a fault is read up to the fault. -/
theorem Divides.run_of_fault {report : Position → LexError} (h : Divides text before ts (gap ++ rest))
    (hskips : Skips gap rest) (hfault : Fault rest report) (hdigits : DigitRunsWithin maxDigits text) :
    (Lexer.run (.between [] text)).error? = some (report (.behind (before ++ gap))) := by
  have hinfix : rest <:+: text := by
    rw [h.eq_append, ← List.append_assoc]
    exact (List.suffix_append _ _).isInfix
  obtain ⟨c, hnext⟩ :=
    lexeme_of_fault (Cursor.rest_between (before ++ gap) rest) hfault (hdigits.of_isInfix hinfix)
  rw [← next_between before hskips] at hnext
  rw [(h.run hdigits).2, Lexer.run, hnext]
  rfl

end Divides

/-- If no run of digits is too long, a text can be read exactly if it is divided into lexemes to its
    end, and then its tokens are theirs and the end of the input; and it cannot be read exactly if
    its division ends at a fault, which is what is reported. -/
theorem tokensOf_divides {s : String} (hdigits : DigitRunsWithin maxDigits s.toList) :
    (∀ ts, tokensOf s = .ok ts ↔ ∃ us before gap, Divides s.toList before us gap ∧ Skips gap [] ∧
      (∀ t ∈ us, t.kind ≠ .endOfInput) ∧
      ts = us ++ [⟨.endOfInput, .absent, .behind s.toList⟩]) ∧
    (∀ e, tokensOf s = .error e ↔ ∃ us before gap rest report,
      Divides s.toList before us (gap ++ rest) ∧ Skips gap rest ∧ Fault rest report ∧
      e = report (.behind (before ++ gap))) := by
  obtain ⟨before, us, last, gap, left, hdiv, hskips, hend, htok⟩ := exists_division s.toList
  rw [← Cursor.ofText_eq_between] at hend htok
  refine ⟨fun ts => ?_, fun e => ?_⟩
  · rw [tokensOf_eq_ok_iff]
    constructor
    · rintro ⟨rfl, herr⟩
      rw [herr] at hend
      cases hend
      rw [List.append_nil] at hdiv
      exact ⟨us, before, gap, hdiv, hskips, hdiv.ne_endOfInput, by rw [htok, hdiv.eq_append]⟩
    · rintro ⟨us, before, gap, hdiv, hskips, -, rfl⟩
      exact hdiv.run_of_nil hskips hdigits
  · rw [tokensOf_eq_error_iff]
    constructor
    · intro herr
      rw [herr] at hend
      cases hend with
      | fault hfault => exact ⟨us, before, gap, left, _, hdiv, hskips, hfault, rfl⟩
      | @tooManyDigits ds rest hds hlong =>
        have hinfix : ds <:+: s.toList := ⟨before ++ gap, rest, by rw [hdiv.eq_append]; simp⟩
        have := hdigits ds hinfix hds.2
        omega
    · rintro ⟨us, before, gap, rest, report, hdiv, hskips, hfault, rfl⟩
      exact hdiv.run_of_fault hskips hfault hdigits

/-- In `x1//a`, `<=12_` the two operators are read one by one, the slashes are not, and the number
    that runs on into a word is a fault; without the underscore it is a token. -/
theorem tokensOf_divides_comment :
    (∃ us before gap, Divides "x1//a\n<=12".toList before us gap ∧ Skips gap [] ∧
      us.map Token.kind = [.identifier, .symbol .less, .symbol .assign, .integer]) ∧
    ∃ us before gap rest report, Divides "x1//a\n<=12_".toList before us (gap ++ rest) ∧
      Skips gap rest ∧ Fault rest report ∧
      report (.behind (before ++ gap)) = .malformedNumber "12_" .letters ⟨2, 3⟩ := by
  constructor
  · have h : tokensOf "x1//a\n<=12" = .ok [⟨.identifier, .text "x1", ⟨1, 1⟩⟩,
        ⟨.symbol .less, .text "<", ⟨2, 1⟩⟩, ⟨.symbol .assign, .text "=", ⟨2, 2⟩⟩,
        ⟨.integer, .number 12, ⟨2, 3⟩⟩, ⟨.endOfInput, .absent, ⟨2, 5⟩⟩] :=
      tokensOf_eq_ok_iff.mpr (by decide +kernel)
    obtain ⟨us, before, gap, hdiv, hskips, -, heq⟩ :=
      ((tokensOf_divides (digitRunsWithin_of_length_le (by decide))).1 _).mp h
    refine ⟨us, before, gap, hdiv, hskips, ?_⟩
    have hinit := congrArg (fun ts => (ts.map Token.kind).dropLast) heq
    simpa using hinit.symm
  · have h : tokensOf "x1//a\n<=12_" = .error (.malformedNumber "12_" .letters ⟨2, 3⟩) :=
      tokensOf_eq_error_iff.mpr (by decide +kernel)
    obtain ⟨us, before, gap, rest, report, hdiv, hskips, hfault, heq⟩ :=
      ((tokensOf_divides (digitRunsWithin_of_length_le (by decide))).2 _).mp h
    exact ⟨us, before, gap, rest, report, hdiv, hskips, hfault, heq.symm⟩

end ExprLang.Lexical

import ExprLang.Proofs.Token.Front
import ExprLang.Proofs.Token.Lexeme

/-! Lexemes, and the longest of them.

        lexeme := symbol | word | number
        symbol := "(" | ")" | "+" | "-" | "*" | "/" | "%" | "<" | "==" | "!=" | "!" | "&&" | "||" | "="
        word   := (letter | "_") (letter | digit | "_")*
        number := digit digit*
        trivia := (blank | "//" character-but-newline* (newline | end of the text))*

    A text is divided into lexemes with trivia between them, each of them as long as it can be.
    Where trivia can begin, it does: two slashes begin a comment and are no two operators. There are
    three faults at which the division ends: no lexeme begins there, or a number does that runs on
    into a word, or one that is too large. What comes next in a text, a lexeme or a fault, is
    settled by its characters (`Munch.unique`, `Fault.unique`). -/

namespace ExprLang

namespace Lexical

open Text

/-! ### Trivia -/

/-- The characters `gap` in front of `rest` are blanks and comments. A comment ends with its
    newline, or with the text. -/
inductive Trivia : List Char → List Char → Prop
  | nil (rest : List Char) : Trivia [] rest
  | blank {c : Char} {gap rest : List Char} : isBlank c = true → Trivia gap rest →
    Trivia (c :: gap) rest
  | comment {cs gap rest : List Char} : '\n' ∉ cs → Trivia gap rest →
    Trivia ('/' :: '/' :: (cs ++ '\n' :: gap)) rest
  | lastComment {cs : List Char} : '\n' ∉ cs → Trivia ('/' :: '/' :: cs) []

/-- Neither a blank nor a comment begins here. -/
def Significant (rest : List Char) : Prop :=
  (∀ c, rest.head? = some c → isBlank c = false) ∧ ¬ ['/', '/'] <+: rest

/-- The trivia `gap` is all that can be skipped in front of `rest`. -/
def Skips (gap rest : List Char) : Prop := Trivia gap rest ∧ Significant rest

theorem significant_nil : Significant [] := ⟨nofun, by decide⟩

theorem significant_of_isIdentChar {d : Char} (hd : isIdentChar d = true) (cs : List Char) :
    Significant (d :: cs) := by
  refine ⟨fun c hc => ?_, ?_⟩
  · obtain rfl := Option.some.inj hc
    exact isBlank_of_isIdentChar hd
  · rintro ⟨more, hmore⟩
    injection hmore with hslash _
    rw [← hslash] at hd
    exact absurd hd (by decide)

theorem significant_of_isWord {w : String} (hw : IsWord w) (rest : List Char) :
    Significant (w.toList ++ rest) := by
  obtain ⟨d, ds, hds, hd, _⟩ := hw
  rw [hds]
  exact significant_of_isIdentChar (isIdentChar_of_isIdentStart hd) _

theorem significant_of_isDigits {ds : List Char} (hds : IsDigits ds) (rest : List Char) :
    Significant (ds ++ rest) := by
  obtain ⟨d, more, rfl⟩ := List.exists_cons_of_ne_nil hds.1
  exact significant_of_isIdentChar (isIdentChar_of_isDigit (hds.2 d (by simp))) _

/-- A comment begins with a symbol only where a slash stands behind it. -/
theorem significant_symbol (s : Symbol) {rest : List Char} (hslash : rest.head? ≠ some '/') :
    Significant (s.text.toList ++ rest) := by
  obtain ⟨d, ds, hds, hblank, hcomment⟩ := s.exists_text_eq_cons
  rw [hds]
  refine ⟨fun c hc => ?_, ?_⟩
  · obtain rfl := Option.some.inj hc
    exact hblank
  · rintro ⟨more, hmore⟩
    injection hmore with hd hmore
    rw [hcomment hd.symm] at hmore
    exact hslash (congrArg List.head? hmore.symm)

/-- Every text begins with all the trivia that can be skipped. -/
theorem exists_skips : ∀ cs : List Char, ∃ gap rest, cs = gap ++ rest ∧ Skips gap rest
  | [] => ⟨[], [], rfl, .nil [], significant_nil⟩
  | c :: cs => by
    by_cases hblank : isBlank c = true
    · obtain ⟨gap, rest, rfl, hgap, hrest⟩ := exists_skips cs
      exact ⟨c :: gap, rest, rfl, .blank hblank hgap, hrest⟩
    · by_cases hcomment : ['/', '/'] <+: c :: cs
      · obtain ⟨more, hmore⟩ := hcomment
        rw [← hmore]
        by_cases hline : '\n' ∈ more
        · -- The comment ends with its line, and there may be more trivia below.
          obtain ⟨line, below, rfl, hnot⟩ := List.eq_append_cons_of_mem hline
          have hlength : below.length < (c :: cs).length := by
            rw [← hmore]
            simp
            omega
          obtain ⟨gap, rest, rfl, hgap, hrest⟩ := exists_skips below
          exact ⟨'/' :: '/' :: (line ++ '\n' :: gap), rest, by simp, .comment hnot hgap, hrest⟩
        · exact ⟨'/' :: '/' :: more, [], by simp, .lastComment hline, significant_nil⟩
      · refine ⟨[], c :: cs, rfl, .nil _, fun d hd => ?_, hcomment⟩
        obtain rfl := Option.some.inj hd
        exact Bool.eq_false_iff.mpr hblank
termination_by cs => cs.length
decreasing_by
  · exact Nat.lt_succ_self _
  · exact hlength

theorem triviaLength_significant {rest : List Char} (h : Significant rest) :
    Cursor.triviaLength false rest = 0 := by
  unfold Cursor.triviaLength
  split
  · rfl
  · contradiction
  · exact absurd (List.prefix_append ['/', '/'] _) h.2
  · rename_i c cs _ _
    rw [if_neg (by rw [h.1 c rfl]; exact Bool.false_ne_true)]

theorem triviaLength_blank {c : Char} (hc : isBlank c = true) (cs : List Char) :
    Cursor.triviaLength false (c :: cs) = 1 + Cursor.triviaLength false cs := by
  rw [Cursor.triviaLength, if_pos hc]
  rintro more rfl
  rw [isBlank_slash] at hc
  cases hc

/-- A comment is skipped to the end of its line. -/
theorem triviaLength_line {line : List Char} (h : '\n' ∉ line) (cs : List Char) :
    Cursor.triviaLength true (line ++ cs) = line.length + Cursor.triviaLength true cs := by
  induction line with
  | nil => simp
  | cons c line ih =>
    have hc : (c != '\n') = true := bne_iff_ne.mpr fun heq => h (heq ▸ List.mem_cons_self)
    rw [List.cons_append, Cursor.triviaLength, hc, ih fun hn => h (List.mem_cons_of_mem c hn),
      List.length_cons]
    omega

/-- Trivia is skipped to its last character. -/
theorem triviaLength_eq {gap rest : List Char} (h : Skips gap rest) :
    Cursor.triviaLength false (gap ++ rest) = gap.length := by
  obtain ⟨hgap, hrest⟩ := h
  induction hgap with
  | nil => exact triviaLength_significant hrest
  | blank hc _ ih =>
    rw [List.cons_append, triviaLength_blank hc, ih hrest, List.length_cons, Nat.add_comm]
  | @comment line gap rest hline _ ih =>
    have hopen : '/' :: '/' :: (line ++ '\n' :: gap) ++ rest =
        '/' :: '/' :: (line ++ '\n' :: (gap ++ rest)) := by simp
    rw [hopen, Cursor.triviaLength, triviaLength_line hline, Cursor.triviaLength]
    show 2 + (line.length + (1 + Cursor.triviaLength false (gap ++ rest))) = _
    rw [ih hrest]
    simp
    omega
  | @lastComment line hline =>
    rw [List.append_nil, Cursor.triviaLength, ← List.append_nil line, triviaLength_line hline]
    simp [Cursor.triviaLength]
    omega

/-! ### Lexemes -/

/-- Some characters are a lexeme, of this kind and with this value. -/
inductive Lexeme : List Char → TokenKind → Value → Prop
  | symbol (s : Symbol) : Lexeme s.text.toList (.symbol s) (.text s.text)
  | word {w : String} : IsWord w → Lexeme w.toList (.ofWord w) (.text w)
  | number {ds : List Char} : IsDigits ds → Lexeme ds .integer (.number (decimalValue ds))

namespace Lexeme

variable {cs ds rest : List Char} {d : Char} {kind kind' : TokenKind} {value value' : Value}

theorem ne_nil (h : Lexeme cs kind value) : cs ≠ [] := by
  cases h with
  | symbol s => cases s <;> decide
  | word hw =>
    obtain ⟨d, ds, hds, _⟩ := hw
    exact hds ▸ List.cons_ne_nil d ds
  | number hds => exact hds.1

/-- The first character of a lexeme says whether it is a symbol, a word or a number. -/
theorem cases_head (h : Lexeme (d :: ds) kind value) :
    (isIdentChar d = false ∧ ∃ s : Symbol, d :: ds = s.text.toList ∧ kind = .symbol s ∧
      value = .text s.text) ∨
    (isIdentStart d = true ∧ ∃ w, IsWord w ∧ d :: ds = w.toList ∧ kind = .ofWord w ∧
      value = .text w) ∨
    (d.isDigit = true ∧ IsDigits (d :: ds) ∧ kind = .integer ∧
      value = .number (decimalValue (d :: ds))) := by
  generalize hcs : d :: ds = cs at h
  cases h with
  | symbol s => exact .inl ⟨s.isIdentChar_head hcs.symm, s, rfl, rfl, rfl⟩
  | @word w hw =>
    refine .inr (.inl ⟨?_, w, hw, rfl, rfl, rfl⟩)
    obtain ⟨c, more, hmore, hc, _⟩ := hw
    rw [hmore] at hcs
    injection hcs with hd _
    exact hd ▸ hc
  | number hds =>
    subst hcs
    exact .inr (.inr ⟨hds.2 d (by simp), hds, rfl, rfl⟩)

theorem ne_endOfInput (h : Lexeme cs kind value) : kind ≠ .endOfInput := by
  cases h with
  | symbol | number => exact nofun
  | word => exact Lexer.ofWord_ne_endOfInput _

/-- A lexeme that begins with a letter or an underscore is a word. -/
theorem word_of_isIdentStart (h : Lexeme (d :: ds) kind value) (hd : isIdentStart d = true) :
    ∃ w, IsWord w ∧ d :: ds = w.toList ∧ kind = .ofWord w ∧ value = .text w := by
  rcases h.cases_head with ⟨hs, _⟩ | ⟨_, hw⟩ | ⟨hn, _⟩
  · rw [isIdentChar_of_isIdentStart hd] at hs
    cases hs
  · exact hw
  · rw [isDigit_of_isIdentStart hd] at hn
    cases hn

/-- A lexeme that begins with a digit is a number. -/
theorem number_of_isDigit (h : Lexeme (d :: ds) kind value) (hd : d.isDigit = true) :
    IsDigits (d :: ds) ∧ kind = .integer ∧ value = .number (decimalValue (d :: ds)) := by
  rcases h.cases_head with ⟨hs, _⟩ | ⟨hw, _⟩ | ⟨_, hn⟩
  · rw [isIdentChar_of_isDigit hd] at hs
    cases hs
  · rw [isDigit_of_isIdentStart hw] at hd
    cases hd
  · exact hn

/-- A lexeme that begins with neither is a symbol. -/
theorem symbol_of_isIdentChar (h : Lexeme (d :: ds) kind value) (hd : isIdentChar d = false) :
    ∃ s : Symbol, d :: ds = s.text.toList ∧ kind = .symbol s ∧ value = .text s.text := by
  rcases h.cases_head with ⟨_, hs⟩ | ⟨hw, _⟩ | ⟨hn, _⟩
  · exact hs
  · rw [isIdentStart_of_isIdentChar_eq_false hd] at hw
    cases hw
  · rw [isDigit_of_isIdentChar_eq_false hd] at hn
    cases hn

/-- The characters of a lexeme settle what it means. -/
theorem unique (h : Lexeme cs kind value) (h' : Lexeme cs kind' value') :
    kind = kind' ∧ value = value' := by
  obtain ⟨d, ds, rfl⟩ := List.exists_cons_of_ne_nil h.ne_nil
  rcases h.cases_head with ⟨hd, s, hs, rfl, rfl⟩ | ⟨hd, w, _, hw, rfl, rfl⟩ | ⟨hd, _, rfl, rfl⟩
  · obtain ⟨s', hs', rfl, rfl⟩ := h'.symbol_of_isIdentChar hd
    obtain rfl := Symbol.text_injective (hs.symm.trans hs')
    exact ⟨rfl, rfl⟩
  · obtain ⟨w', _, hw', rfl, rfl⟩ := h'.word_of_isIdentStart hd
    obtain rfl := String.toList_inj.mp (hw.symm.trans hw')
    exact ⟨rfl, rfl⟩
  · obtain ⟨_, rfl, rfl⟩ := h'.number_of_isDigit hd
    exact ⟨rfl, rfl⟩

end Lexeme

/-! ### Faults -/

/-- What is wrong with a text where it begins, to be reported at its position. -/
inductive Fault : List Char → (Position → LexError) → Prop
  | noLexeme {c : Char} {cs : List Char} :
    (∀ ds kind value, ds <+: c :: cs → ¬ Lexeme ds kind value) → Fault (c :: cs) (.unexpectedChar c)
  | letters {ds rest : List Char} {w : String} : IsDigits ds → IsWord w → Breaks rest →
    Fault (ds ++ (w.toList ++ rest)) (.malformedNumber (String.ofList ds ++ w) .letters)
  | tooLarge {ds rest : List Char} : IsDigits ds → Breaks rest →
    Word64.maxValue < decimalValue ds →
    Fault (ds ++ rest) (.malformedNumber (String.ofList ds) .range)

/-- A lexeme in front of some characters is the longest that begins there, and it has no fault. -/
structure Munch (span rest : List Char) (kind : TokenKind) (value : Value) : Prop where
  lexeme : Lexeme span kind value
  longest : ∀ ds kind' value', ds <+: span ++ rest → Lexeme ds kind' value' →
    ds.length ≤ span.length
  faultless : ∀ report, ¬ Fault (span ++ rest) report

/-- At most one lexeme is the longest. -/
theorem Munch.unique {span span' rest rest' : List Char} {kind kind' : TokenKind}
    {value value' : Value} (h : Munch span rest kind value) (h' : Munch span' rest' kind' value')
    (heq : span ++ rest = span' ++ rest') :
    span = span' ∧ rest = rest' ∧ kind = kind' ∧ value = value' := by
  have hle := h.longest span' kind' value' (heq ▸ List.prefix_append span' rest') h'.lexeme
  have hge := h'.longest span kind value (heq ▸ List.prefix_append span rest) h.lexeme
  obtain ⟨rfl, rfl⟩ := List.append_inj heq (Nat.le_antisymm hge hle)
  exact ⟨rfl, rfl, h.lexeme.unique h'.lexeme⟩

namespace Fault

variable {cs ds rest : List Char} {report report' : Position → LexError}

theorem ne_nil (h : Fault cs report) : cs ≠ [] := by
  cases h with
  | noLexeme => exact List.cons_ne_nil _ _
  | letters hds | tooLarge hds => exact List.append_ne_nil_of_left_ne_nil hds.1 _

/-- A fault that begins with a digit is a number that runs on into a word, or one that is too
    large. -/
theorem cases_of_isDigits (h : Fault (ds ++ rest) report) (hds : IsDigits ds)
    (hrest : ∀ d, rest.head? = some d → d.isDigit = false) :
    (∃ w more, rest = w.toList ++ more ∧ IsWord w ∧ Breaks more ∧
      report = .malformedNumber (String.ofList ds ++ w) .letters) ∨
    (Breaks rest ∧ Word64.maxValue < decimalValue ds ∧
      report = .malformedNumber (String.ofList ds) .range) := by
  generalize hcs : ds ++ rest = cs at h
  cases h with
  | noLexeme hno => exact absurd (.number hds) (hno ds _ _ (hcs ▸ List.prefix_append ds rest))
  | letters hds' hw hmore =>
    obtain ⟨rfl, rfl⟩ := run_unique hcs hds.2 hds'.2 hrest (isDigit_head_of_isWord hw _)
    exact .inl ⟨_, _, rfl, hw, hmore, rfl⟩
  | tooLarge hds' hbreaks hlarge =>
    obtain ⟨rfl, rfl⟩ := run_unique hcs hds.2 hds'.2 hrest hbreaks.isDigit
    exact .inr ⟨hbreaks, hlarge, rfl⟩

/-- A word does not break off a run of digits. -/
theorem not_breaks_of_isWord {w : String} (hw : IsWord w) (more : List Char) :
    ¬ Breaks (w.toList ++ more) := by
  obtain ⟨d, ds, hds, hd, _⟩ := hw
  intro h
  have := h d (by rw [hds]; rfl)
  rw [isIdentChar_of_isIdentStart hd] at this
  cases this

/-- A text has at most one fault where it begins. -/
theorem unique (h : Fault cs report) (h' : Fault cs report') : report = report' := by
  cases h with
  | @noLexeme c cs hno =>
    generalize hcs : c :: cs = ds at h'
    cases h' with
    | noLexeme =>
      injection hcs with hc _
      rw [hc]
    | letters hds | tooLarge hds =>
      exact absurd (.number hds) (hno _ _ _ (hcs ▸ List.prefix_append _ _))
  | letters hds hw hmore =>
    rcases h'.cases_of_isDigits hds (isDigit_head_of_isWord hw _) with
      ⟨w', more', heq, hw', hmore', rfl⟩ | ⟨hbreaks, _⟩
    · obtain ⟨hww, _⟩ := run_unique heq hw.isIdentChar hw'.isIdentChar hmore hmore'
      rw [String.toList_inj.mp hww]
    · exact absurd hbreaks (not_breaks_of_isWord hw _)
  | tooLarge hds hbreaks =>
    rcases h'.cases_of_isDigits hds hbreaks.isDigit with ⟨w, more, rfl, hw, _⟩ | ⟨_, _, rfl⟩
    · exact absurd hbreaks (not_breaks_of_isWord hw _)
    · rfl

end Fault

/-! ### What comes next -/

section Next

variable {d : Char} {ds cs rest : List Char} {kind : TokenKind} {value : Value}

theorem Lexeme.exists_of_prefix (h : Lexeme ds kind value) (hds : ds <+: d :: cs) :
    ∃ es, ds = d :: es := by
  obtain ⟨e, es, rfl⟩ := List.exists_cons_of_ne_nil h.ne_nil
  obtain ⟨us, hus⟩ := hds
  injection hus with he _
  exact ⟨es, by rw [he]⟩

/-- There is no fault where a symbol or a word begins. -/
theorem not_fault (h : Lexeme ds kind value) (hds : ds <+: d :: cs) (hd : d.isDigit = false)
    (report : Position → LexError) : ¬ Fault (d :: cs) report := by
  have hnot {es more : List Char} (hes : IsDigits es) : d :: cs ≠ es ++ more := by
    obtain ⟨e, es', rfl⟩ := List.exists_cons_of_ne_nil hes.1
    intro heq
    injection heq with he _
    have := hes.2 e (by simp)
    rw [← he, hd] at this
    cases this
  intro hfault
  generalize hcs : d :: cs = text at hfault
  cases hfault with
  | noLexeme hno => exact hno _ _ _ (hcs ▸ hds) h
  | letters hes | tooLarge hes => exact hnot hes hcs

theorem munch_symbol {s : Symbol} (h : Symbol.scan? cs = some s) :
    ∃ rest, cs = s.text.toList ++ rest ∧ Munch s.text.toList rest (.symbol s) (.text s.text) := by
  obtain ⟨rest, rfl⟩ := Symbol.prefix_of_scan? h
  obtain ⟨d, ds, hds, _⟩ := s.exists_text_eq_cons
  have hd := s.isIdentChar_head hds
  have hlex := Lexeme.symbol s
  rw [hds] at h hlex ⊢
  refine ⟨rest, rfl, hlex, fun es kind value hes hes' => ?_, ?_⟩
  · obtain ⟨us, rfl⟩ := hes'.exists_of_prefix hes
    obtain ⟨s', hs', _⟩ := hes'.symbol_of_isIdentChar hd
    rw [hs'] at hes ⊢
    exact hds ▸ Symbol.length_le_of_scan? h hes
  · exact not_fault hlex (List.prefix_append _ _) (isDigit_of_isIdentChar_eq_false hd)

theorem munch_word {w : String} (hw : IsWord w) (hrest : Breaks rest) :
    Munch w.toList rest (.ofWord w) (.text w) := by
  have hlex := Lexeme.word hw
  obtain ⟨d, ds, hds, hd, _⟩ := id hw
  refine ⟨hlex, fun es kind value hes hes' => ?_, ?_⟩
  · have hlist := hes
    rw [hds] at hlist
    obtain ⟨us, rfl⟩ := hes'.exists_of_prefix hlist
    obtain ⟨w', hw', heq, _⟩ := hes'.word_of_isIdentStart hd
    rw [heq] at hes ⊢
    exact length_le_of_run hes hw'.isIdentChar hrest
  · rw [hds] at hlex ⊢
    exact not_fault hlex (List.prefix_append _ _) (isDigit_of_isIdentStart hd)

theorem munch_number (hds : IsDigits ds) (hrest : Breaks rest)
    (hle : decimalValue ds ≤ Word64.maxValue) :
    Munch ds rest .integer (.number (decimalValue ds)) := by
  refine ⟨.number hds, fun es kind value hes hes' => ?_, fun report hfault => ?_⟩
  · obtain ⟨d, more, rfl⟩ := List.exists_cons_of_ne_nil hds.1
    obtain ⟨us, rfl⟩ := hes'.exists_of_prefix hes
    obtain ⟨hdigits, _⟩ := hes'.number_of_isDigit (hds.2 d (by simp))
    exact length_le_of_run hes hdigits.2 hrest.isDigit
  · rcases hfault.cases_of_isDigits hds hrest.isDigit with ⟨w, more, rfl, hw, _⟩ | ⟨_, hlarge, _⟩
    · exact Fault.not_breaks_of_isWord hw more hrest
    · omega

/-- Nothing but a symbol, a word or a number begins a lexeme. -/
theorem fault_noLexeme (hscan : Symbol.scan? (d :: cs) = none) (hd : isIdentChar d = false) :
    Fault (d :: cs) (.unexpectedChar d) := by
  refine .noLexeme fun ds kind value hds h => ?_
  obtain ⟨es, rfl⟩ := h.exists_of_prefix hds
  obtain ⟨s, hs, _⟩ := h.symbol_of_isIdentChar hd
  exact Symbol.scan?_ne_none (hs ▸ hds) hscan

/-- The longest run of digits that begins somewhere has no digit behind it. -/
theorem Munch.isDigit_head (h : Munch ds rest kind value) (hds : IsDigits ds) (c : Char)
    (hc : rest.head? = some c) : c.isDigit = false := by
  cases hdigit : c.isDigit with
  | false => rfl
  | true =>
    obtain ⟨more, rfl⟩ := List.head?_eq_some_iff.mp hc
    have hlonger : IsDigits (ds ++ [c]) := by
      refine ⟨by simp, fun d hd => ?_⟩
      rcases List.mem_append.mp hd with hd | hd
      · exact hds.2 d hd
      · rw [List.mem_singleton.mp hd]
        exact hdigit
    have hle := h.longest _ _ _ ⟨more, by simp⟩ (.number hlonger)
    rw [List.length_append, List.length_singleton] at hle
    omega

/-- A number without a fault is one of sixty-four bits. -/
theorem Munch.number_le (h : Munch ds rest .integer value) :
    value = .number (decimalValue ds) ∧ IsDigits ds ∧ decimalValue ds ≤ Word64.maxValue := by
  have hlex := h.lexeme
  generalize hkind : TokenKind.integer = kind at hlex
  cases hlex with
  | symbol => cases hkind
  | word =>
    unfold TokenKind.ofWord at hkind
    split at hkind <;> cases hkind
  | number hds =>
    refine ⟨rfl, hds, Int.not_lt.mp fun hlarge => ?_⟩
    rcases word_or_breaks (h.isDigit_head hds) with ⟨w, more, rfl, hw, hmore⟩ | hbreaks
    · exact h.faultless _ (.letters hds hw hmore)
    · exact h.faultless _ (.tooLarge hds hbreaks hlarge)

end Next

end Lexical
end ExprLang

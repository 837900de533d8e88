import ExprLang.Proofs.Expr.Provenance
import ExprLang.Proofs.LayoutIndependence
import ExprLang.Proofs.Token.Layout
import ExprLang.Proofs.Token.Spelling

/-! Listings of tokens, read again.

    A line of the listing is a word for the family of a token and the spelling of the token. The
    spellings on lines of their own make a text, and its tokens are those that were listed, at other
    places (`tokensOf_relisted`). Every token that comes from a text is read from its spelling
    wherever nothing or a blank stands behind it (`Token.StandsIn.reads_spelling`), so a newline is
    enough to keep it from running on into the next. The spelling need not be the lexeme that the
    token came from: leading zeros are gone. -/

namespace ExprLang

open Text Lexer Lexical

/-! ### Spellings -/

/-- What stands behind the first blank of a text. -/
def Text.behindBlank (s : String) : String :=
  String.ofList ((s.toList.dropWhile fun c => c != ' ').drop 1)

theorem Text.behindBlank_append {word : String}
    (hword : (word.toList.dropWhile fun c => c != ' ') = [' ']) (s : String) :
    behindBlank (word ++ s) = s := by
  rw [behindBlank, String.toList_append, List.dropWhile_append, hword]
  exact String.ofList_toList

namespace Token

/-- The line of a token in the listing without the word for its family. -/
def spelling (t : Token) : String := Text.behindBlank t.listing

variable {t : Token}

theorem spelling_keyword {k : Keyword} (h : t.kind = .keyword k) : t.spelling = k.text := by
  rw [spelling, listing, h]
  exact behindBlank_append (by decide) k.text

theorem spelling_symbol {s : Symbol} (h : t.kind = .symbol s) : t.spelling = s.text := by
  rw [spelling, listing, h]
  exact behindBlank_append (by decide) s.text

theorem spelling_integer (h : t.kind = .integer) : t.spelling = t.value.plain := by
  rw [spelling, listing, h]
  exact behindBlank_append (by decide) t.value.plain

theorem spelling_identifier (h : t.kind = .identifier) : t.spelling = t.value.plain := by
  rw [spelling, listing, h]
  exact behindBlank_append (by decide) t.value.plain

/-- A token that stands in a text is read from its spelling, in front of a blank or of nothing. -/
theorem StandsIn.reads_spelling {text rest : List Char} (h : t.StandsIn text) (hrest : Apart rest) :
    Reads t.spelling.toList rest (Single t.kind t.value) := by
  obtain ⟨_, span, _, -, -, hmunch⟩ := h
  cases hk : t.kind with
  | keyword k =>
    rw [hk] at hmunch
    rw [spelling_keyword hk, hmunch.lexeme.value_of_keyword]
    exact reads_keyword k hrest.breaks
  | symbol s =>
    rw [hk] at hmunch
    rw [spelling_symbol hk, hmunch.lexeme.value_of_symbol]
    exact reads_symbol s (hrest.head?_ne (by decide)) (hrest.head?_ne isBlank_slash)
  | identifier =>
    rw [hk] at hmunch
    obtain ⟨w, hv, hw⟩ := hmunch.lexeme.exists_name
    rw [spelling_identifier hk, hv, ← hw.ofWord]
    exact reads_word hw.1 hrest.breaks
  | integer =>
    rw [hk] at hmunch
    obtain ⟨hv, -, hle⟩ := hmunch.number_le
    rw [spelling_integer hk, hv, Value.toList_plain_natCast]
    exact reads_number hle hrest.breaks
  | endOfInput =>
    rw [hk] at hmunch
    exact absurd rfl hmunch.lexeme.ne_endOfInput

end Token

/-! ### One line for each token -/

/-- The tokens in front of the end of the input. -/
def Token.withoutEnd (ts : List Token) : List Token := ts.filter fun t => t.kind != .endOfInput

/-- The spellings of the tokens in front of the end of the input, on lines of their own. -/
def Token.relisted (ts : List Token) : String :=
  "\n".intercalate ((withoutEnd ts).map spelling)

/-- Tokens are read from their spellings on lines of their own, if each is read from its spelling in
    front of a blank or of nothing. -/
theorem reads_spellings {ts : List Token}
    (h : ∀ t ∈ ts, ∀ rest, Apart rest → Reads t.spelling.toList rest (Single t.kind t.value)) :
    Reads ("\n".intercalate (ts.map Token.spelling)).toList []
      fun us => us.map Token.unplaced = ts.map Token.unplaced := by
  induction ts with
  | nil => exact fun c hc => ⟨[], c, hc, .nil _, rfl⟩
  | cons t ts ih =>
    obtain ⟨ht, hts⟩ := List.forall_mem_cons.mp h
    cases ts with
    | nil =>
      refine (ht [] nofun).mono ?_
      rintro _ ⟨p, rfl⟩
      rfl
    | cons t' ts =>
      have hlines : ("\n".intercalate ((t :: t' :: ts).map Token.spelling)).toList =
          t.spelling.toList ++
            '\n' :: ("\n".intercalate ((t' :: ts).map Token.spelling)).toList := by
        simp [String.intercalate_cons_cons]
      rw [hlines]
      have hbelow := ih hts
      generalize ("\n".intercalate ((t' :: ts).map Token.spelling)).toList = below at hbelow ⊢
      have hapart : Apart ('\n' :: below ++ []) := by
        intro c hc
        obtain rfl := Option.some.inj hc
        exact isBlank_newline
      refine (ht _ hapart).append ?_
      rintro _ ⟨p, rfl⟩
      refine (Reads.blank isBlank_newline hbelow (by simp)).mono fun us hus => ?_
      rw [List.cons_append, List.map_cons, List.nil_append, hus]
      rfl

/-- The listing of the tokens of a text can be read again. The spellings of the tokens in front of
    the end of the input, on lines of their own, make a text that is read to its end, and its tokens
    are of the same kinds and have the same values, in the same order; and then the end of the input
    comes. -/
theorem tokensOf_relisted {s : String} {ts : List Token} (h : tokensOf s = .ok ts) :
    ∃ us last, tokensOf (Token.relisted ts) = .ok (us ++ [last]) ∧ last.kind = .endOfInput ∧
      us.map Token.unplaced = (Token.withoutEnd ts).map Token.unplaced := by
  obtain ⟨rfl, -⟩ := tokensOf_eq_ok_iff.mp h
  refine (reads_spellings fun t ht rest hrest => ?_).tokensOf
  obtain ⟨hmem, hk⟩ := List.mem_filter.mp ht
  rcases standsIn_of_mem_tokens hmem with hstands | ⟨hend, -⟩
  · exact hstands.reads_spelling hrest
  · simp [hend] at hk

/-- The zeros and the comment of `a==-007//x` are not listed, and what is listed is read as the same
    four tokens. -/
theorem tokensOf_relisted_zeros :
    ∃ us last, tokensOf "a\n==\n-\n7" = .ok (us ++ [last]) ∧ last.kind = .endOfInput ∧
      us.map Token.unplaced = [⟨.identifier, .text "a", .unknown⟩,
        ⟨.symbol .equal, .text "==", .unknown⟩, ⟨.symbol .minus, .text "-", .unknown⟩,
        ⟨.integer, .number 7, .unknown⟩] := by
  have h : tokensOf "a==-007//x" = .ok [⟨.identifier, .text "a", ⟨1, 1⟩⟩,
      ⟨.symbol .equal, .text "==", ⟨1, 2⟩⟩, ⟨.symbol .minus, .text "-", ⟨1, 4⟩⟩,
      ⟨.integer, .number 7, ⟨1, 5⟩⟩, ⟨.endOfInput, .absent, ⟨1, 11⟩⟩] :=
    tokensOf_eq_ok_iff.mpr (by decide +kernel)
  exact tokensOf_relisted h

end ExprLang

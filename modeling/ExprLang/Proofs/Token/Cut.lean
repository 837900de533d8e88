import ExprLang.Proofs.Expr.Relocation
import ExprLang.Proofs.Token.Place
import ExprLang.Proofs.Token.Reading

/-! A newline is a clean cut.

    No token runs over a newline, a comment ends with it, and nothing that the lexer looks at lies
    beyond it. So a piece of a text that ends in front of a newline, or with the text, is read there
    as it is read alone (`Surroundings.run_within`): lines in front of it move all positions down,
    and what is behind it is read once the piece has been read to its end. Two texts with a newline
    between them are two such pieces (`tokensOf_newline`). -/

namespace ExprLang

/-- The position in the same column, some lines further down. -/
def Position.down (n : Nat) (p : Position) : Position := ⟨p.line + n, p.column⟩

/-- A failure to read a token, at another place. -/
def LexError.relocate (f : Position → Position) : LexError → LexError
  | .unexpectedChar c p => .unexpectedChar c (f p)
  | .malformedNumber s fault p => .malformedNumber s fault (f p)
  | e => e

theorem LexError.relocate_id (e : LexError) : e.relocate id = e := by cases e <;> rfl

theorem Token.relocate_id (t : Token) : t.relocate id = t := rfl

namespace Position

variable (n : Nat) (p : Position)

theorem down_zero : down 0 = id := by
  funext p
  simp [down]

theorem after_down (c : Char) : (p.down n).after c = (p.after c).down n := by
  by_cases hc : c = '\n'
  · simp only [down, after, hc, if_true, mk.injEq, and_true]
    omega
  · simp [down, after, hc]

theorem afterAll_down (cs : List Char) : (p.down n).afterAll cs = (p.afterAll cs).down n := by
  induction cs generalizing p with
  | nil => rfl
  | cons c cs ih => rw [afterAll_cons, afterAll_cons, after_down, ih]

/-- Behind a text and a newline begins the line that is as far down as the newlines say. -/
theorem afterAll_newline (cs : List Char) :
    (start.afterAll cs).after '\n' = start.down (1 + cs.count '\n') := by
  have hbehind : start.afterAll cs = behind cs := behind_afterAll [] cs
  rw [hbehind]
  simp only [behind, after, down, start, if_true, mk.injEq, and_true]
  push_cast
  omega

end Position

/-! ### What a cursor has to read -/

/-- A move to the end of the text may be made in two. -/
theorem Cursor.pass_to_end {c : Cursor} {n : Nat} (hn : n ≤ c.rest.length) :
    (c.pass n).pass (c.pass n).rest.length = c.pass c.rest.length := by
  rw [pass_pass, rest_pass, List.length_drop]
  congr 1
  omega

/-- The end of the input, as it is read behind all that a cursor has to read. -/
def Cursor.endToken (c : Cursor) : Token := ⟨.endOfInput, .absent, (c.pass c.rest.length).position⟩

namespace Lexer

variable {c c' : Cursor} {t : Token}

/-- Where nothing but trivia is left, all of it is skipped. -/
theorem triviaLength_of_skipTrivia (hc : c.skipTrivia.rest = []) :
    Cursor.triviaLength false c.rest = c.rest.length := by
  have hle := Cursor.triviaLength_le false c.rest
  rw [Cursor.skipTrivia, Cursor.rest_pass, List.drop_eq_nil_iff] at hc
  omega

/-- A token is read within what a cursor has to read. -/
theorem exists_pass_of_next (h : next c = .ok t c') :
    ∃ n, n ≤ c.rest.length ∧ c' = c.pass n := by
  have hskip := Cursor.triviaLength_le false c.rest
  have hread := Lexical.reading_lexeme c.skipTrivia
  rw [next] at h
  rw [h] at hread
  cases hread with
  | endOfInput => exact ⟨_, hskip, rfl⟩
  | @token span rest _ _ hrest =>
    refine ⟨Cursor.triviaLength false c.rest + span.length, ?_, Cursor.pass_pass c _ _⟩
    have hlength := congrArg List.length hrest
    rw [Cursor.skipTrivia, Cursor.rest_pass, List.length_drop, List.length_append] at hlength
    omega

theorem run_congr (h : next c = next c') : run c = run c' := by
  rw [run, run, h]

theorem run_of_error {e : LexError} (h : next c = .error e c') : run c = ⟨[], some e, c'⟩ := by
  rw [run, h]

theorem run_of_token (h : next c = .ok t c') (ht : t.kind ≠ .endOfInput) :
    run c = ⟨t :: (run c').tokens, (run c').error?, (run c').cursor⟩ := by
  rw [run, h]
  simp only [ht, dite_false]

end Lexer

/-! ### Pieces of a text -/

/-- What stands around a piece of a text: some lines of so many characters in front of it, and
    behind it nothing, or a newline and more. -/
structure Surroundings where
  lines : Nat
  length : Nat
  behind : List Char
  newline : ∀ c, behind.head? = some c → c = '\n'

/-- A cursor in a piece of a text, seen as a cursor in the whole text. -/
def Cursor.within (w : Surroundings) (c : Cursor) : Cursor :=
  ⟨c.rest ++ w.behind, c.offset + w.length, c.position.down w.lines⟩

namespace Surroundings

open Lexer

variable (w : Surroundings)

/-- A token of a piece, seen as a token of the whole text. -/
abbrev token (t : Token) : Token := t.relocate (.down w.lines)

/-- A failure in a piece, seen as a failure in the whole text. -/
abbrev error (e : LexError) : LexError := e.relocate (.down w.lines)

/-- What is read from a piece, seen from the whole text. -/
def result {α β : Type} (g : α → β) :
    EStateM.Result LexError Cursor α → EStateM.Result LexError Cursor β
  | .ok a c => .ok (g a) (c.within w)
  | .error e c => .error (w.error e) (c.within w)

/-! ### Characters -/

/-- A run of characters that a newline ends does not go on behind the piece. -/
theorem takeWhile_append {p : Char → Bool} (hp : p '\n' = false) (cs : List Char) :
    (cs ++ w.behind).takeWhile p = cs.takeWhile p := by
  have hbehind : w.behind.takeWhile p = [] := by
    cases hb : w.behind with
    | nil => rfl
    | cons d ds =>
      obtain rfl := w.newline d (by rw [hb]; rfl)
      simp [hp]
  rw [List.takeWhile_append, hbehind, List.append_nil]
  split
  · rename_i hall
    exact ((List.takeWhile_prefix p).eq_of_length hall).symm
  · rfl

/-- What begins within a piece and holds no newline ends within it. -/
theorem prefix_of_prefix_append {cs ds : List Char} (h : ds <+: cs ++ w.behind) (hds : '\n' ∉ ds) :
    ds <+: cs := by
  rcases List.prefix_or_prefix_of_prefix h (List.prefix_append cs w.behind) with h' | ⟨es, rfl⟩
  · exact h'
  · have hes : es <+: w.behind := (List.prefix_append_right_inj cs).mp h
    rcases es with _ | ⟨e, es⟩
    · simp
    · obtain ⟨rest, hrest⟩ := hes
      have he : e = '\n' := w.newline e (by rw [← hrest]; rfl)
      exact absurd (by simp [he]) hds

/-- The same symbol is found at the front of a piece as in the whole text. -/
theorem scan?_append (cs : List Char) : Symbol.scan? (cs ++ w.behind) = Symbol.scan? cs := by
  have hfree (s : Symbol) : '\n' ∉ s.text.toList := by cases s <;> decide
  have hwithin {s : Symbol} (h : Symbol.scan? (cs ++ w.behind) = some s) : s.text.toList <+: cs :=
    w.prefix_of_prefix_append (Symbol.prefix_of_scan? h) (hfree s)
  cases hcs : Symbol.scan? cs with
  | none =>
    cases h : Symbol.scan? (cs ++ w.behind) with
    | none => rfl
    | some s => exact absurd hcs (Symbol.scan?_ne_none (hwithin h))
  | some s =>
    have hs := Symbol.prefix_of_scan? hcs
    have hs' := hs.trans (List.prefix_append cs w.behind)
    cases h : Symbol.scan? (cs ++ w.behind) with
    | none => exact absurd h (Symbol.scan?_ne_none hs')
    | some s' =>
      have hle := Symbol.length_le_of_scan? h hs'
      have hge := Symbol.length_le_of_scan? hcs (hwithin h)
      have hspelled := List.prefix_of_prefix_length_le (hwithin h) hs hge
      rw [Symbol.text_injective (hspelled.eq_of_length (Nat.le_antisymm hge hle))]

/-- What can be skipped in a piece can be skipped in the whole text, and no more unless all of the
    piece can be. A newline behind it ends a comment. -/
theorem triviaLength_append (b : Bool) (cs : List Char) :
    Cursor.triviaLength b (cs ++ w.behind) =
      if Cursor.triviaLength b cs = cs.length then
        cs.length + Cursor.triviaLength false w.behind
      else Cursor.triviaLength b cs := by
  fun_induction Cursor.triviaLength b cs with
  | case1 b =>
    cases hb : w.behind with
    | nil => simp [Cursor.triviaLength]
    | cons d ds =>
      obtain rfl := w.newline d (by rw [hb]; rfl)
      cases b <;> simp [Cursor.triviaLength, Text.isBlank_newline]
  | case2 c cs ih =>
    rw [List.cons_append, Cursor.triviaLength, ih, List.length_cons]
    split <;> split <;> omega
  | case3 cs ih =>
    rw [List.cons_append, List.cons_append, Cursor.triviaLength, ih, List.length_cons,
      List.length_cons]
    split <;> split <;> omega
  | case4 c cs hslash hblank ih =>
    rw [List.cons_append, Lexical.triviaLength_blank hblank, ih, List.length_cons]
    split <;> split <;> omega
  | case5 c cs hslash hblank =>
    rw [List.length_cons, if_neg (by omega), List.cons_append, Cursor.triviaLength, if_neg hblank]
    rintro more rfl hmore
    rcases cs with _ | ⟨d, ds⟩
    · exact absurd (w.newline '/' (by rw [← List.nil_append w.behind, hmore]; rfl)) (by decide)
    · injection hmore with hd _
      exact hslash ds rfl (by rw [hd])

/-! ### Tokens -/

section Readers

variable {c : Cursor}

theorem pass_within {n : Nat} (hn : n ≤ c.rest.length) :
    (c.within w).pass n = (c.pass n).within w := by
  simp only [Cursor.within, Cursor.pass, List.drop_append_of_le_length hn,
    List.take_append_of_le_length hn, Position.afterAll_down, Cursor.mk.injEq, true_and, and_true]
  omega

/-- What stands under the cursor at the end of a piece is of no kind that a newline is not of. -/
theorem any_current?_within {p : Char → Bool} (hp : p '\n' = false) :
    (c.within w).current?.any p = c.current?.any p := by
  unfold Cursor.current? Cursor.within
  cases hc : c.rest with
  | cons d ds => rfl
  | nil =>
    cases hb : w.behind with
    | nil => rfl
    | cons d ds =>
      obtain rfl := w.newline d (by rw [hb]; rfl)
      simp [hp]

theorem number_within (c : Cursor) : number (c.within w) = w.result id (number c) := by
  have hdigits : (c.within w).rest.takeWhile Char.isDigit = c.rest.takeWhile Char.isDigit :=
    w.takeWhile_append (by decide) c.rest
  have hpass := w.pass_within (List.takeWhile_prefix (l := c.rest) Char.isDigit).length_le
  unfold number
  simp only [hdigits, hpass]
  generalize c.pass (c.rest.takeWhile Char.isDigit).length = behind
  have hletters : (behind.within w).rest.takeWhile Text.isIdentChar =
      behind.rest.takeWhile Text.isIdentChar := w.takeWhile_append (by decide) behind.rest
  have hmore := w.pass_within (List.takeWhile_prefix (l := behind.rest) Text.isIdentChar).length_le
  rw [w.any_current?_within (by decide), hletters, hmore]
  split
  · rfl
  · split
    · rfl
    · split
      · rfl
      · split <;> rfl

theorem word_within (hc : c.rest ≠ []) : word (c.within w) = w.result id (word c) := by
  obtain ⟨d, ds, hd⟩ := List.exists_cons_of_ne_nil hc
  have hrest : (c.within w).rest = d :: (ds ++ w.behind) := by
    rw [Cursor.within, hd, List.cons_append]
  have hmore := w.takeWhile_append (p := Text.isIdentChar) (by decide) ds
  have hlength : (ds.takeWhile Text.isIdentChar).length + 1 ≤ c.rest.length := by
    rw [hd, List.length_cons]
    exact Nat.succ_le_succ (List.takeWhile_prefix _).length_le
  unfold word
  simp only [hrest, hd, hmore, w.pass_within hlength]
  rfl

/-- A token is read in a piece as in the whole text. -/
theorem lexeme_within (hc : c.rest ≠ []) :
    lexeme (c.within w) = w.result w.token (lexeme c) := by
  obtain ⟨d, ds, hd⟩ := List.exists_cons_of_ne_nil hc
  have hrest : (c.within w).rest = d :: (ds ++ w.behind) := by
    rw [Cursor.within, hd, List.cons_append]
  have hscan : Symbol.scan? (d :: (ds ++ w.behind)) = Symbol.scan? (d :: ds) :=
    w.scan?_append (d :: ds)
  unfold lexeme
  simp only [hrest, hd, hscan]
  cases hs : Symbol.scan? (d :: ds) with
  | some s =>
    have hlength : s.text.length ≤ c.rest.length := by
      rw [hd, ← String.length_toList]
      exact (Symbol.prefix_of_scan? hs).length_le
    simp only [w.pass_within hlength]
    rfl
  | none =>
    dsimp only
    split
    · rw [EStateM.map, EStateM.map, w.number_within]
      cases number c <;> rfl
    · split
      · rw [EStateM.map, EStateM.map, w.word_within hc]
        cases word c <;> rfl
      · rfl

/-- The next token of a piece is the next token in the whole text. -/
theorem next_within (hc : c.skipTrivia.rest ≠ []) :
    next (c.within w) = w.result w.token (next c) := by
  have hle := Cursor.triviaLength_le false c.rest
  have hlt : Cursor.triviaLength false c.rest ≠ c.rest.length := by
    intro hall
    rw [Cursor.skipTrivia, hall, Cursor.rest_pass, List.drop_length] at hc
    exact hc rfl
  have hskip : (c.within w).skipTrivia = c.skipTrivia.within w := by
    rw [Cursor.skipTrivia, Cursor.within, w.triviaLength_append, if_neg hlt]
    exact w.pass_within hle
  rw [next, next, hskip, w.lexeme_within hc]

/-- A piece in which nothing but trivia is left is left behind. -/
theorem next_within_of_skipTrivia (hc : c.skipTrivia.rest = []) :
    next (c.within w) = next ((c.pass c.rest.length).within w) := by
  have hend : ((c.pass c.rest.length).within w).rest = w.behind := by
    simp [Cursor.within]
  rw [next, next, Cursor.skipTrivia, Cursor.skipTrivia, hend, ← w.pass_within (Nat.le_refl _),
    Cursor.pass_pass]
  rw [Cursor.within, w.triviaLength_append, if_pos (triviaLength_of_skipTrivia hc)]

/-- A token that is read in a piece is read in the whole text. -/
theorem next_within_of_ok {c' : Cursor} {t : Token} (hn : next c = .ok t c')
    (ht : t.kind ≠ .endOfInput) : next (c.within w) = .ok (w.token t) (c'.within w) := by
  have hleft : c.skipTrivia.rest ≠ [] := by
    intro hnil
    rw [next, Lexical.lexeme_of_nil hnil] at hn
    injection hn with hend _
    exact ht (by rw [← hend])
  rw [w.next_within hleft, hn]
  rfl

end Readers

/-! ### Whole pieces -/

/-- A failure in a piece is a failure in the whole text; and behind a piece that can be read to its
    end, with the tokens of the piece, the text is read on. -/
theorem run_within (c : Cursor) :
    (∀ e, (run c).error? = some e → (run (c.within w)).error? = some (w.error e)) ∧
    ((run c).error? = none → ∃ ts, (run c).tokens = ts ++ [c.endToken] ∧
      (run (c.within w)).tokens =
        ts.map w.token ++ (run ((c.pass c.rest.length).within w)).tokens ∧
      (run (c.within w)).error? = (run ((c.pass c.rest.length).within w)).error?) := by
  fun_induction run c with
  | case1 c e c' hn =>
    have hleft : c.skipTrivia.rest ≠ [] := by
      intro hnil
      rw [next, Lexical.lexeme_of_nil hnil] at hn
      cases hn
    have hwithin : next (c.within w) = .error (w.error e) (c'.within w) := by
      rw [w.next_within hleft, hn]
      rfl
    constructor
    · rintro e' he
      obtain rfl := Option.some.inj he
      rw [run_of_error hwithin]
    · intro he
      cases he
  | case2 c t c' hn ht =>
    obtain ⟨rfl, hnil⟩ := next_endOfInput hn ht
    have hsame := run_congr (w.next_within_of_skipTrivia hnil)
    have hend : t = c.endToken := by
      rw [next, Lexical.lexeme_of_nil hnil, Cursor.skipTrivia,
        triviaLength_of_skipTrivia hnil] at hn
      injection hn with hn _
      exact hn.symm
    refine ⟨by simp, fun _ => ⟨[], by rw [hend]; rfl, ?_, ?_⟩⟩
    · rw [hsame]
      rfl
    · rw [hsame]
  | case3 c t c' hn ht r ih =>
    have hwithin := w.next_within_of_ok hn ht
    obtain ⟨n, hle, rfl⟩ := exists_pass_of_next hn
    obtain ⟨herror, htokens⟩ := ih
    rw [Cursor.endToken, Cursor.pass_to_end hle] at htokens
    rw [run_of_token hwithin ht]
    refine ⟨herror, fun hnone => ?_⟩
    obtain ⟨ts, hts, hall, herr⟩ := htokens hnone
    exact ⟨t :: ts, by rw [hts]; rfl, by rw [hall]; rfl, herr⟩

/-- With lines in front of it and nothing behind it, a piece is read as it is read alone, so many
    lines further down. -/
theorem run_within_of_behind (hw : w.behind = []) (c : Cursor) :
    (run (c.within w)).error? = (run c).error?.map w.error ∧
    ((run c).error? = none → (run (c.within w)).tokens = (run c).tokens.map w.token) := by
  obtain ⟨herror, htokens⟩ := w.run_within c
  have hlast : run ((c.pass c.rest.length).within w) =
      ⟨[w.token c.endToken], none, (c.pass c.rest.length).within w⟩ := by
    have hnil : ((c.pass c.rest.length).within w).rest = [] := by
      simp [Cursor.within, hw]
    rw [run, Lexical.next_of_rest_eq_nil hnil]
    rfl
  cases he : (run c).error? with
  | some e => exact ⟨herror e he, by simp⟩
  | none =>
    obtain ⟨ts, hts, hall, herr⟩ := htokens he
    rw [hlast] at hall herr
    refine ⟨herr, fun _ => ?_⟩
    rw [hall, hts, List.map_append]
    rfl

end Surroundings

open Lexer

/-- A newline between two texts is a clean cut. If the first cannot be read, the whole cannot be
    read for the same reason. If it can, its tokens without the end of the input come first, and
    then the second text is read as it is read alone, with all of its positions, those of a failure
    among them, moved down by the newlines in front of it. -/
theorem tokensOf_newline (a b : String) :
    (∀ e, tokensOf a = .error e → tokensOf (a ++ "\n" ++ b) = .error e) ∧
    ∀ ts, tokensOf a = .ok ts → ∃ us last, ts = us ++ [last] ∧ last.kind = .endOfInput ∧
      let down := Position.down (1 + a.toList.count '\n')
      (∀ vs, tokensOf b = .ok vs →
        tokensOf (a ++ "\n" ++ b) = .ok (us ++ vs.map (Token.relocate down))) ∧
      ∀ e, tokensOf b = .error e → tokensOf (a ++ "\n" ++ b) = .error (e.relocate down) := by
  let first : Surroundings := ⟨0, 0, '\n' :: b.toList, by simp⟩
  let second : Surroundings := ⟨1 + a.toList.count '\n', a.toList.length + 1, [], by simp⟩
  have hfirst : Cursor.ofText (a ++ "\n" ++ b) = (Cursor.ofText a).within first := by
    simp [Cursor.within, Cursor.ofText, Cursor.ofList, first, Position.down_zero]
  have hblank : next (((Cursor.ofText a).pass (Cursor.ofText a).rest.length).within first) =
      next ((Cursor.ofText b).within second) := by
    have hrest : (((Cursor.ofText a).pass (Cursor.ofText a).rest.length).within first).rest =
        '\n' :: b.toList := by
      simp [Cursor.within, first]
    rw [Lexical.next_blank hrest Text.isBlank_newline]
    congr 1
    simp [Cursor.within, Cursor.pass, Cursor.ofText, Cursor.ofList, first, second,
      Position.down_zero, Position.afterAll_newline]
  have hsecond := run_congr hblank
  -- Nothing stands in front of the first text, so its tokens and failures stay where they are.
  have hstay : Position.down first.lines = id := Position.down_zero
  have hsame : first.token = id := by
    funext t
    rw [Surroundings.token, hstay, Token.relocate_id, id]
  obtain ⟨herror, htokens⟩ := first.run_within (Cursor.ofText a)
  obtain ⟨herr, hall⟩ := second.run_within_of_behind rfl (Cursor.ofText b)
  rw [← hfirst] at herror htokens
  constructor
  · intro e he
    rw [tokensOf_eq_error_iff] at he ⊢
    rw [herror e he, Surroundings.error, hstay, LexError.relocate_id]
  · intro ts hts
    obtain ⟨rfl, hnone⟩ := tokensOf_eq_ok_iff.mp hts
    obtain ⟨us, hus, htok, hend⟩ := htokens hnone
    rw [hsecond, hsame, List.map_id] at htok
    rw [hsecond] at hend
    refine ⟨us, _, hus, rfl, ?_, ?_⟩
    · intro vs hvs
      obtain ⟨rfl, hb⟩ := tokensOf_eq_ok_iff.mp hvs
      rw [tokensOf_eq_ok_iff, htok, hend, hall hb, herr, hb]
      exact ⟨rfl, rfl⟩
    · intro e he
      rw [tokensOf_eq_error_iff] at he ⊢
      rw [hend, herr, he]
      rfl

/-- A comment ends at the newline, and of two slashes that a newline parts the second begins no
    comment. -/
theorem tokensOf_newline_slash :
    tokensOf "a / // /" = .ok [⟨.identifier, .text "a", ⟨1, 1⟩⟩,
      ⟨.symbol .slash, .text "/", ⟨1, 3⟩⟩, ⟨.endOfInput, .absent, ⟨1, 9⟩⟩] ∧
    tokensOf "/ 2" = .ok [⟨.symbol .slash, .text "/", ⟨1, 1⟩⟩, ⟨.integer, .number 2, ⟨1, 3⟩⟩,
      ⟨.endOfInput, .absent, ⟨1, 4⟩⟩] ∧
    tokensOf ("a / // /" ++ "\n" ++ "/ 2") = .ok [⟨.identifier, .text "a", ⟨1, 1⟩⟩,
      ⟨.symbol .slash, .text "/", ⟨1, 3⟩⟩, ⟨.symbol .slash, .text "/", ⟨2, 1⟩⟩,
      ⟨.integer, .number 2, ⟨2, 3⟩⟩, ⟨.endOfInput, .absent, ⟨2, 4⟩⟩] := by
  have ha : tokensOf "a / // /" = .ok [⟨.identifier, .text "a", ⟨1, 1⟩⟩,
      ⟨.symbol .slash, .text "/", ⟨1, 3⟩⟩, ⟨.endOfInput, .absent, ⟨1, 9⟩⟩] :=
    tokensOf_eq_ok_iff.mpr (by decide +kernel)
  have hb : tokensOf "/ 2" = .ok [⟨.symbol .slash, .text "/", ⟨1, 1⟩⟩,
      ⟨.integer, .number 2, ⟨1, 3⟩⟩, ⟨.endOfInput, .absent, ⟨1, 4⟩⟩] :=
    tokensOf_eq_ok_iff.mpr (by decide +kernel)
  obtain ⟨us, last, hts, -, hok, -⟩ := (tokensOf_newline "a / // /" "/ 2").2 _ ha
  have hus := congrArg List.dropLast hts
  rw [List.dropLast_concat] at hus
  refine ⟨ha, hb, ?_⟩
  rw [hok _ hb, ← hus]
  rfl

end ExprLang

import ExprLang.Proofs.Expr.Outlasting
import ExprLang.Proofs.Token.Cut

/-! Expressions that stand below one another.

    A reader of expressions stops in front of what does not belong to its expression and leaves it in
    the slot, so several expressions can be read from one stream. Where they stand on lines of their
    own, each is read as it is read alone, moved down by the lines in front of it
    (`expressions_of_texts`). No token runs over the newline between two texts (`takes_within`), and
    the first token of the second text ends the first expression, unless it is a minus: of all the
    tokens that an expression can begin with, only the minus binds operands too
    (`precedence_of_begins`). -/

namespace ExprLang

open Lexer TokenStream

/-- Reads so many expressions, one behind the other. -/
def Parser.expressions (depth : Nat) : Nat → Parser (List Expr)
  | 0 => pure []
  | n + 1 => do
    let e ← expression depth
    let es ← expressions depth n
    pure (e :: es)

/-- The trees of texts that stand below one another: each is moved down by the newlines in front of
    its text, of which there are `lines` in front of the first. -/
def lowered (lines : Nat) : List String → List Expr → List Expr
  | s :: texts, e :: trees =>
    e.relocate (.down lines) :: lowered (lines + s.toList.count '\n' + 1) texts trees
  | _, _ => []

/-! ### Texts as pieces -/

namespace Surroundings

/-- What stands around the first of some texts that stand below one another, with so many lines in
    front of it. -/
def above (lines length : Nat) (texts : List String) : Surroundings where
  lines := lines
  length := length
  behind := texts.flatMap fun s => '\n' :: s.toList
  newline c hc := by
    cases texts with
    | nil => cases hc
    | cons s texts => exact (Option.some.inj hc).symm

/-- The texts with newlines between them begin with the first one. -/
theorem ofText_intercalate (a : String) (texts : List String) :
    Cursor.ofText ("\n".intercalate (a :: texts)) = (Cursor.ofText a).within (above 0 0 texts) := by
  have htexts : ∀ a : String, ("\n".intercalate (a :: texts)).toList =
      a.toList ++ texts.flatMap fun s => '\n' :: s.toList := by
    induction texts with
    | nil => simp
    | cons b texts ih => simp [String.intercalate_cons_cons, ih]
  simp [Cursor.ofText, Cursor.ofList, Cursor.within, htexts, above, Position.down_zero]

variable (w : Surroundings)

/-- The tokens that are taken in a piece are taken in the whole text. -/
theorem takes_within {c : Cursor} {ts : List Token} {s : TokenStream} (h : Takes ⟨c, none⟩ ts s) :
    ∃ n, n ≤ c.rest.length ∧ s = ⟨c.pass n, none⟩ ∧
      Takes ⟨c.within w, none⟩ (ts.map w.token) ⟨(c.pass n).within w, none⟩ := by
  generalize hs : (⟨c, none⟩ : TokenStream) = s₀ at h
  induction h generalizing c with
  | nil =>
    subst hs
    exact ⟨0, Nat.zero_le _, by rw [Cursor.pass_zero], by rw [Cursor.pass_zero]; exact .nil _⟩
  | cons hn ht _ ih =>
    subst hs
    obtain ⟨c₁, hc, rfl⟩ := next_empty_eq_ok hn
    obtain ⟨m, hm, rfl⟩ := exists_pass_of_next hc
    obtain ⟨n, hle, rfl, htakes⟩ := ih rfl
    rw [Cursor.rest_pass, List.length_drop] at hle
    rw [Cursor.pass_pass] at htakes ⊢
    refine ⟨m + n, by omega, rfl, .cons ?_ ht htakes⟩
    rw [next_empty, w.next_within_of_ok hc ht]

/-- All tokens of a piece are taken in the whole text, which is then read on behind the piece. -/
theorem takes_piece {c : Cursor} {ts : List Token} {last : Token}
    (htokens : (run c).tokens = ts ++ [last]) (herror : (run c).error? = none) :
    ∃ d, Takes ⟨c.within w, none⟩ (ts.map w.token) ⟨d, none⟩ ∧
      Lexer.next d = Lexer.next ((c.pass c.rest.length).within w) := by
  obtain ⟨us, s, hus, ⟨t, s', hn, hk, htok, -⟩ | ⟨e, s', -, -, herr⟩⟩ := exists_takes_run c
  · obtain ⟨rfl, -⟩ := List.append_inj' (htokens.symm.trans htok) rfl
    obtain ⟨n, hle, rfl, htakes⟩ := w.takes_within hus
    refine ⟨_, htakes, ?_⟩
    obtain ⟨c₁, hc, -⟩ := next_empty_eq_ok hn
    obtain ⟨rfl, hnil⟩ := next_endOfInput hc hk
    rw [w.next_within_of_skipTrivia hnil, Cursor.pass_to_end hle]
  · rw [herror] at herr
    cases herr

variable (lines length : Nat)

/-- Behind the last text the input ends. -/
theorem peek_behind_last (c : Cursor) : ∃ t v,
    peek ⟨(c.pass c.rest.length).within (above lines length []), none⟩ = .ok t v ∧
      t.kind = .endOfInput := by
  have hnil : ((c.pass c.rest.length).within (above lines length [])).rest = [] := by
    simp [Cursor.within, above]
  simp only [peek, Lexical.next_of_rest_eq_nil hnil]
  exact ⟨_, _, rfl, rfl⟩

/-- Behind a text and a newline the next text is read, so many lines further down. -/
theorem next_behind_text (a b : String) (texts : List String) :
    Lexer.next (((Cursor.ofText a).pass (Cursor.ofText a).rest.length).within
        (above lines length (b :: texts))) =
      Lexer.next ((Cursor.ofText b).within
        (above (lines + a.toList.count '\n' + 1) (length + a.toList.length + 1) texts)) := by
  have hrest : (((Cursor.ofText a).pass (Cursor.ofText a).rest.length).within
      (above lines length (b :: texts))).rest =
        '\n' :: (b.toList ++ (above lines length texts).behind) := by
    simp [Cursor.within, above]
  have hdown : (Position.start.down (1 + a.toList.count '\n')).down lines =
      Position.start.down (lines + a.toList.count '\n' + 1) := by
    simp only [Position.down, Position.start, Position.mk.injEq, and_true]
    push_cast
    omega
  rw [Lexical.next_blank hrest Text.isBlank_newline]
  congr 1
  simp [Cursor.within, Cursor.pass, Cursor.ofText, Cursor.ofList, above, Position.after_down,
    Position.afterAll_newline, hdown]
  omega

end Surroundings

/-! ### One expression behind the other -/

namespace Parser

open Grammar Surroundings

/-- Of the tokens that an expression can begin with, only a minus binds operands. -/
theorem precedence_of_begins {ts : List Token} {t : Token} {e : Expr} (h : Sentence (t :: ts) e)
    (ht : t.kind ≠ .symbol .minus) : t.kind.precedence = 0 := by
  have hrun := Derives.run h .input []
  rw [Situation.run_cons] at hrun
  obtain ⟨σ, hstep, -⟩ := Option.bind_eq_some_iff.mp hrun
  rcases Situation.step_due_cases hstep with
    ⟨hk | hk, -⟩ | ⟨hk, -⟩ | ⟨hk, -⟩ | ⟨hk | hk, -⟩
  · rw [hk]; rfl
  · rw [hk]; rfl
  · rw [hk]; rfl
  · rw [hk]; rfl
  · exact absurd hk ht
  · rw [hk]; rfl

variable {depth depth' : Nat}

/-- A text that begins with no minus begins with a token that binds nothing, wherever it stands. -/
theorem peek_within {b : String} {e : Expr} (h : parseWithin depth b = .ok e)
    (hminus : ∀ t ts, tokensOf b = .ok (t :: ts) → t.kind ≠ .symbol .minus) (w : Surroundings) :
    ∃ t u, TokenStream.peek ⟨(Cursor.ofText b).within w, none⟩ = .ok t u ∧
      t.kind.precedence = 0 := by
  obtain ⟨ts, last, htokens, herror, -, hts⟩ := run_of_parseWithin_ok h
  obtain ⟨d, htakes, -⟩ := w.takes_piece htokens herror
  cases ts with
  | nil => exact absurd rfl hts.ne_nil
  | cons t ts =>
    have ht := hminus t (ts ++ [last]) (tokensOf_eq_ok_iff.mpr ⟨htokens, herror⟩)
    have hprecedence := precedence_of_begins hts ht
    cases htakes with
    | cons hn _ _ => exact ⟨_, _, (peek_of_next hn).2, hprecedence⟩

/-- In front of a token that binds nothing, a piece is read as it is read alone, by a stream that
    gives what stands there. -/
theorem expression_of_piece (hd : depth ≤ depth' + 1) {a : String} {e : Expr} {w : Surroundings}
    {s v : TokenStream} {t : Token} (ha : parseWithin depth a = .ok e)
    (hs : ∀ {ts t v}, Sees ⟨(Cursor.ofText a).within w, none⟩ ts (.ok t v) → Sees s ts (.ok t v))
    (hpeek : TokenStream.peek
      ⟨((Cursor.ofText a).pass (Cursor.ofText a).rest.length).within w, none⟩ = .ok t v)
    (ht : t.kind.precedence = 0) :
    expression depth' s = .ok (e.relocate (.down w.lines)) v := by
  obtain ⟨ts, last, htokens, herror, -⟩ := run_of_parseWithin_ok ha
  obtain ⟨c, htakes, hnext⟩ := w.takes_piece htokens herror
  have hsees := hs ⟨_, htakes, (peek_congr hnext).trans hpeek⟩
  exact expression_of_parseWithin ha (tokensOf_eq_ok_iff.mpr ⟨htokens, herror⟩) hd hsees ht

/-- One expression after the other is read from texts that stand below one another, of which the
    first is `a`, by a stream that gives what stands there. -/
theorem expressions_of_pieces (hd : depth ≤ depth' + 1) {texts : List String} {trees : List Expr}
    (htrees : List.Forall₂ (fun s e => parseWithin depth s = .ok e) texts trees) :
    ∀ {a : String} {e : Expr} (lines length : Nat) {s : TokenStream},
      parseWithin depth a = .ok e →
      (∀ b ∈ texts, ∀ t ts, tokensOf b = .ok (t :: ts) → t.kind ≠ .symbol .minus) →
      (∀ {ts t v}, Sees ⟨(Cursor.ofText a).within (above lines length texts), none⟩ ts (.ok t v) →
        Sees s ts (.ok t v)) →
      ∃ v t, expressions depth' (texts.length + 1) s =
          .ok (lowered lines (a :: texts) (e :: trees)) v ∧
        TokenStream.peek v = .ok t v ∧ t.kind = .endOfInput := by
  induction htrees with
  | nil =>
    intro a e lines length s ha _ hs
    obtain ⟨t, v, hpeek, ht⟩ := peek_behind_last lines length (Cursor.ofText a)
    have hx := expression_of_piece hd ha hs hpeek (by rw [ht]; rfl)
    refine ⟨v, t, ?_, peek_peek hpeek, ht⟩
    rw [expressions, bind_of_ok hx]
    rfl
  | @cons b _ texts trees hb _ ih =>
    intro a e lines length s ha hminus hs
    obtain ⟨hfirst, hminus⟩ := List.forall_mem_cons.mp hminus
    have hnext := peek_congr (next_behind_text lines length a b texts)
    obtain ⟨t, v, hpeek, ht⟩ := peek_within hb hfirst
      (above (lines + a.toList.count '\n' + 1) (length + a.toList.length + 1) texts)
    have hx := expression_of_piece hd ha hs (hnext.trans hpeek) ht
    -- The token that ended this expression lies in the slot when the next one is read.
    obtain ⟨u, last, hrest, hend⟩ := ih _ _ hb hminus fun h => h.of_peek hpeek
    refine ⟨u, last, ?_, hend⟩
    rw [List.length_cons, expressions, bind_of_ok hx, bind_of_ok hrest]
    rfl

/-- Expressions that stand below one another are read one by one from one stream. If each of some
    texts has a tree, and none but the first begins with a minus, then as many expressions as there
    are texts are read from the texts with newlines between them. They are the trees of the texts,
    each moved down by the newlines in front of its text, and the end of the input comes next. -/
theorem expressions_of_texts {texts : List String} {trees : List Expr}
    (htrees : List.Forall₂ (fun s e => parseWithin depth s = .ok e) texts trees)
    (hminus : ∀ s ∈ texts.tail, ∀ t ts, tokensOf s = .ok (t :: ts) → t.kind ≠ .symbol .minus)
    (hd : depth ≤ depth' + 1) :
    ∃ s last s', expressions depth' texts.length (ofText ("\n".intercalate texts)) =
        .ok (lowered 0 texts trees) s ∧
      TokenStream.next s = .ok last s' ∧ last.kind = .endOfInput := by
  cases htrees with
  | nil => exact ⟨_, _, _, rfl, rfl, rfl⟩
  | cons ha htrees =>
    rw [ofText, ofText_intercalate]
    obtain ⟨v, t, hes, hpeek, ht⟩ := expressions_of_pieces hd htrees 0 0 ha hminus fun h => h
    exact ⟨v, t, _, hes, (next_of_peek hpeek).2, ht⟩

/-- An expression behind a comment, one on two lines and one that begins with an exclamation mark are
    read from four lines. -/
theorem expressions_of_texts_lines :
    ∃ s last s', expressions 50 3 (ofText "1 // one\n(x\n)\n!y") =
        .ok [.integer ⟨1, 1⟩ (.number 1), .identifier ⟨2, 2⟩ (.text "x"),
          .unary ⟨4, 1⟩ (.text "!") (.identifier ⟨4, 2⟩ (.text "y"))] s ∧
      TokenStream.next s = .ok last s' ∧ last.kind = .endOfInput := by
  have hx : tokensOf "(x\n)" = .ok [⟨.symbol .leftParen, .text "(", ⟨1, 1⟩⟩,
      ⟨.identifier, .text "x", ⟨1, 2⟩⟩, ⟨.symbol .rightParen, .text ")", ⟨2, 1⟩⟩,
      ⟨.endOfInput, .absent, ⟨2, 2⟩⟩] := tokensOf_eq_ok_iff.mpr (by decide +kernel)
  have hy : tokensOf "!y" = .ok [⟨.symbol .bang, .text "!", ⟨1, 1⟩⟩,
      ⟨.identifier, .text "y", ⟨1, 2⟩⟩, ⟨.endOfInput, .absent, ⟨1, 3⟩⟩] :=
    tokensOf_eq_ok_iff.mpr (by decide +kernel)
  have hminus : ∀ s ∈ ["(x\n)", "!y"], ∀ t ts, tokensOf s = .ok (t :: ts) →
      t.kind ≠ .symbol .minus := by
    intro s hs t ts hts
    simp only [List.mem_cons, List.not_mem_nil, or_false] at hs
    rcases hs with rfl | rfl
    · rw [hx] at hts
      cases hts
      decide
    · rw [hy] at hts
      cases hts
      decide
  have hone : parseWithin 50 "1 // one" = .ok (.integer ⟨1, 1⟩ (.number 1)) := by rfl
  have hname : parseWithin 50 "(x\n)" = .ok (.identifier ⟨1, 2⟩ (.text "x")) := by rfl
  have hnot : parseWithin 50 "!y" =
      .ok (.unary ⟨1, 1⟩ (.text "!") (.identifier ⟨1, 2⟩ (.text "y"))) := by rfl
  have hjoined : "\n".intercalate ["1 // one", "(x\n)", "!y"] = "1 // one\n(x\n)\n!y" := by
    decide
  have hd : 50 ≤ 50 + 1 := by decide
  obtain ⟨s, last, s', hes, hend⟩ :=
    expressions_of_texts (.cons hone (.cons hname (.cons hnot .nil))) hminus hd
  rw [hjoined] at hes
  exact ⟨s, last, s', hes, hend⟩

end Parser
end ExprLang

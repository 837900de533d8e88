import ExprLang.Proofs.Expr.Provenance

/-! The order of a tree in the source.

    Listed from the left to the right, the nodes of a tree are the tokens that it was read from, one
    by one, except for those that only hold it together: parentheses, the inner words of a choice,
    and the end of the input. A node says what its token says and stands where its token does, so
    positions grow along the listing, as they do along the tokens of every text
    (`Lexical.Divides.increasing`), and no two nodes share one. -/

namespace ExprLang

open Grammar

/-! ### Growing positions -/

namespace Position

/-- A position comes before another one: it is in an earlier line, or further left in the same
    line. -/
def Before (p q : Position) : Prop := p.line < q.line ∨ (p.line = q.line ∧ p.column < q.column)

theorem Before.trans {p q r : Position} (h : p.Before q) (h' : q.Before r) : p.Before r := by
  simp only [Before] at *
  omega

theorem Before.ne {p q : Position} (h : p.Before q) : p ≠ q := by
  rintro rfl
  simp only [Before] at h
  omega

theorem before_after (p : Position) (c : Char) : p.Before (p.after c) := by
  by_cases hc : c = '\n'
  · rw [after, if_pos hc]
    exact .inl (Int.lt_succ p.line)
  · rw [after, if_neg hc]
    exact .inr ⟨rfl, Int.lt_succ p.column⟩

/-- Going through some characters leads to a later position. -/
theorem before_behind (cs : List Char) {ds : List Char} (h : ds ≠ []) :
    (behind cs).Before (behind (cs ++ ds)) := by
  induction ds generalizing cs with
  | nil => exact absurd rfl h
  | cons d ds ih =>
    have hstep : (behind cs).Before (behind (cs ++ [d])) := behind_concat cs d ▸ before_after _ d
    cases ds with
    | nil => exact hstep
    | cons d' ds =>
      have hrest := ih (cs ++ [d]) (List.cons_ne_nil d' ds)
      rw [List.append_assoc, List.singleton_append] at hrest
      exact hstep.trans hrest

end Position

namespace Lexical

variable {text before rest : List Char} {ts : List Token}

/-- The tokens of a division stand in front of where it has come to. -/
theorem Divides.position_before (h : Divides text before ts rest) :
    ∀ t ∈ ts, t.position.Before (.behind before) := by
  induction h with
  | start => exact fun t ht => absurd ht List.not_mem_nil
  | @token before gap span rest ts kind value _ _ hmunch ih =>
    intro t ht
    rcases List.mem_append.mp ht with ht | ht
    · have hmore : gap ++ span ≠ [] := by simp [hmunch.lexeme.ne_nil]
      have hbehind := Position.before_behind before hmore
      rw [← List.append_assoc] at hbehind
      exact (ih t ht).trans hbehind
    · rw [List.mem_singleton.mp ht]
      exact Position.before_behind (before ++ gap) hmunch.lexeme.ne_nil

/-- A token behind a division, with some characters in between, stands behind its tokens. -/
theorem Divides.increasing_concat (h : Divides text before ts rest)
    (hts : (ts.map Token.position).Pairwise Position.Before) (gap : List Char) {t : Token}
    (ht : t.position = .behind (before ++ gap)) :
    ((ts ++ [t]).map Token.position).Pairwise Position.Before := by
  rw [List.map_append, List.pairwise_append]
  refine ⟨hts, List.pairwise_singleton _ _, ?_⟩
  intro p hp q hq
  obtain ⟨u, hu, rfl⟩ := List.mem_map.mp hp
  rw [List.map_singleton, List.mem_singleton] at hq
  have hbefore := h.position_before u hu
  rw [hq, ht]
  by_cases hgap : gap = []
  · rw [hgap, List.append_nil]
    exact hbefore
  · exact hbefore.trans (Position.before_behind before hgap)

/-- The positions of tokens grow. -/
theorem Divides.increasing (h : Divides text before ts rest) :
    (ts.map Token.position).Pairwise Position.Before := by
  induction h with
  | start => exact .nil
  | token hdiv _ _ ih => exact hdiv.increasing_concat ih _ rfl

/-- The positions of the tokens that are read from a text grow, up to the end of the input. -/
theorem increasing_of_run (s : String) :
    ((Lexer.run (Cursor.ofText s)).tokens.map Token.position).Pairwise Position.Before := by
  obtain ⟨before, ts, last, gap, left, hdiv, -, hend, htok⟩ := exists_division s.toList
  rw [← Cursor.ofText_eq_between] at htok hend
  rw [htok]
  generalize (Lexer.run (Cursor.ofText s)).error? = err at hend
  cases hend with
  | endOfInput => exact hdiv.increasing_concat hdiv.increasing gap rfl
  | fault | tooManyDigits =>
    rw [List.append_nil]
    exact hdiv.increasing

end Lexical

/-! ### Nodes from the left to the right -/

/-- What a token says, and where. -/
def Token.mark (t : Token) : Value × Position := (t.value, t.position)

namespace Expr

/-- What a node says, and where. A choice says the word that it begins with. -/
def mark : Expr → Value × Position
  | .conditional p .. => (.text Keyword.ifWord.text, p)
  | e => (e.value, e.position)

theorem mark_snd (e : Expr) : e.mark.2 = e.position := by cases e <;> rfl

/-- Nodes whose marks are those of some tokens stand where these do. -/
theorem positions_of_marks {xs : List Expr} {ts : List Token}
    (h : xs.map mark = ts.map Token.mark) : xs.map position = ts.map Token.position := by
  have hsnd := congrArg (List.map Prod.snd) h
  simpa [Function.comp_def, mark_snd, Token.mark] using hsnd

end Expr

/-- A node says what the token says that it is made of, and where. -/
theorem Token.StandsIn.mark_eq {text : List Char} {t : Token} {x : Expr} (h : t.StandsIn text) (hx : MadeOf t x) :
    t.mark = x.mark := by
  cases hx with
  | conditional hk =>
    obtain ⟨_, _, _, -, -, hmunch⟩ := h
    rw [hk] at hmunch
    exact congrArg (·, t.position) hmunch.lexeme.value_of_keyword
  | _ => rfl

/-- The nodes of the tree of tokens that stand in a text say what the significant ones say, and
    where. -/
theorem Grammar.Derives.marks {text : List Char} {c : Category} {ts : List Token} {e : Expr}
    (h : Derives c ts e) (hts : ∀ t ∈ ts, t.isSignificant = true → t.StandsIn text) :
    e.inOrder.map Expr.mark = (ts.filter Token.isSignificant).map Token.mark := by
  have hstands : ∀ t ∈ ts.filter Token.isSignificant, t.StandsIn text := fun t ht =>
    hts t (List.mem_filter.mp ht).1 (List.mem_filter.mp ht).2
  have hpairs := (List.forall₂_and_left _ _).mpr ⟨hstands, h.forall₂_madeOf⟩
  have hmarks : List.Forall₂ (fun t x => Token.mark t = Expr.mark x)
      (ts.filter Token.isSignificant) e.inOrder := hpairs.imp fun t x ht => ht.1.mark_eq ht.2
  rw [eq_comm, ← List.forall₂_eq_eq_eq, List.forall₂_map_left_iff, List.forall₂_map_right_iff]
  exact hmarks

/-- From the left to the right, the nodes of the tree of a text say what the significant tokens say,
    and where. Every node is listed once, later nodes stand at later positions, and no two stand at
    the same one. -/
theorem inOrder_of_parseWithin {depth : Nat} {s : String} {e : Expr}
    (h : parseWithin depth s = .ok e) :
    ∃ ts, tokensOf s = .ok ts ∧
      e.inOrder.map Expr.mark = (ts.filter Token.isSignificant).map Token.mark ∧
      (e.inOrder.map Expr.position).Pairwise Position.Before ∧
      e.inOrder.Perm e.nodes ∧ (e.nodes.map Expr.position).Nodup := by
  obtain ⟨ts, last, htok, herr, hlast, hts⟩ := run_of_parseWithin_ok h
  have hend : last.isSignificant = false := by simp [Token.isSignificant, hlast]
  have hstands (t : Token) (ht : t ∈ ts) (hsignificant : t.isSignificant = true) :
      t.StandsIn s.toList := by
    rcases standsIn_of_mem_tokens (s := s) (t := t) (by simp [htok, ht]) with hstands | ⟨hk, -⟩
    · exact hstands
    · simp [Token.isSignificant, hk] at hsignificant
  have hmarks := hts.marks hstands
  have hgrow : (e.inOrder.map Expr.position).Pairwise Position.Before := by
    have htokens := Lexical.increasing_of_run s
    rw [htok, List.map_append] at htokens
    rw [Expr.positions_of_marks hmarks]
    exact (List.pairwise_append.mp htokens).1.sublist (List.filter_sublist.map _)
  have hdistinct : (e.inOrder.map Expr.position).Nodup := hgrow.imp Position.Before.ne
  refine ⟨ts ++ [last], tokensOf_eq_ok_iff.mpr ⟨htok, herr⟩, ?_, hgrow, e.inOrder_perm_nodes,
    ((e.inOrder_perm_nodes.map Expr.position).nodup_iff).mp hdistinct⟩
  simpa [hend] using hmarks

/-- `(a + -b) * if 1 then c else 2 end` is listed from `a` to `2`, without parentheses and without
    the inner words of the choice. -/
theorem inOrder_of_parseWithin_choice : ∃ e,
    parseWithin 50 "(a + -b) * if 1 then c else 2 end" = .ok e ∧
    e.inOrder.map Expr.mark = [(.text "a", ⟨1, 2⟩), (.text "+", ⟨1, 4⟩), (.text "-", ⟨1, 6⟩),
      (.text "b", ⟨1, 7⟩), (.text "*", ⟨1, 10⟩), (.text "if", ⟨1, 12⟩), (.number 1, ⟨1, 15⟩),
      (.text "c", ⟨1, 22⟩), (.number 2, ⟨1, 29⟩)] ∧
    (e.nodes.map Expr.position).Nodup := by
  let e : Expr := .binary ⟨1, 10⟩ (.text "*")
    (.binary ⟨1, 4⟩ (.text "+") (.identifier ⟨1, 2⟩ (.text "a"))
      (.unary ⟨1, 6⟩ (.text "-") (.identifier ⟨1, 7⟩ (.text "b"))))
    (.conditional ⟨1, 12⟩ (.integer ⟨1, 15⟩ (.number 1)) (.identifier ⟨1, 22⟩ (.text "c"))
      (.integer ⟨1, 29⟩ (.number 2)))
  have hsome : (parseWithin 50 "(a + -b) * if 1 then c else 2 end").toOption = some e := by
    decide +kernel
  have h : parseWithin 50 "(a + -b) * if 1 then c else 2 end" = .ok e := by
    generalize parseWithin 50 "(a + -b) * if 1 then c else 2 end" = r at hsome
    cases r with
    | error err => cases hsome
    | ok e' => exact congrArg Except.ok (Option.some.inj hsome)
  obtain ⟨ts, -, -, -, -, hdistinct⟩ := inOrder_of_parseWithin h
  exact ⟨e, h, rfl, hdistinct⟩

end ExprLang

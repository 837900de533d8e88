import ExprLang.Proofs.Expr.Reading

/-! The constructs that tokens leave open.

    Which parentheses and choices some tokens have opened and not closed is told by counting alone
    (`openConstructs`), and a situation keeps the same constructs, with the whole input around them.
    So what a situation reports names an operand where every token that could go on begins one, and
    otherwise the innermost construct that the tokens have left open (`production_report`). -/

namespace ExprLang

open Grammar

namespace Grammar

/-- A token that can begin an operand. -/
def BeginsOperand (t : Token) : Prop :=
  t.kind = .integer ∨ t.kind = .identifier ∨ t.kind = .symbol .leftParen ∨
    t.kind = .keyword .ifWord ∨ Leading t

/-- Behind some tokens an operand is required: only the beginning of one can go on. -/
def OperandRequired (ts : List Token) : Prop := ∀ t, Viable (ts ++ [t]) → BeginsOperand t

/-- The constructs that are open behind a token, the innermost first. -/
def openedBy (opened : List Production) (t : Token) : List Production :=
  match t.kind with
  | .symbol .leftParen => .parenthesized :: opened
  | .keyword .ifWord => .conditional :: opened
  | .symbol .rightParen | .keyword .endWord => opened.tail
  | _ => opened

/-- The constructs that some tokens open and do not close, the innermost first. -/
def openConstructs (ts : List Token) : List Production := ts.foldl openedBy []

variable {σ σ' : Situation} {t : Token} {ts : List Token} {opened : List Production}

/-- No operator opens or closes anything. -/
theorem openedBy_operator (h : t.kind.precedence ≠ 0) : openedBy opened t = opened := by
  unfold openedBy
  split
  all_goals first
    | rfl
    | rename_i hk
      rw [hk] at h
      exact absurd rfl h

/-- A situation keeps the constructs that were opened by counting, with the whole input around
    them. -/
theorem production_opened_step (h : σ.step t = some σ') (ht : t.kind ≠ .endOfInput)
    (ho : σ.opened.map Opening.production = opened ++ [.endOfInput]) :
    σ'.opened.map Opening.production = openedBy opened t ++ [.endOfInput] := by
  obtain ⟨due, os⟩ := σ
  cases due with
  | true =>
    rcases Situation.step_due_cases h with ⟨hk | hk, rfl⟩ | ⟨hk, rfl⟩ | ⟨hk, rfl⟩ | ⟨hk | hk, rfl⟩ <;>
      simp_all [openedBy, Opening.production]
  | false =>
    obtain ⟨o, outer, rfl, ⟨hp, rfl⟩ | ⟨hk, rfl⟩⟩ := Situation.step_not_due_cases h
    · rw [openedBy_operator hp]
      exact ho
    · cases opened with
      | nil => cases o <;> simp_all [Opening.production, Opening.closing]
      | cons p opened =>
        cases o <;> simp_all [openedBy, Opening.production, Opening.closing, Opening.closed]

theorem production_opened_run (h : σ.run ts = some σ') (hts : ∀ t ∈ ts, t.kind ≠ .endOfInput)
    (ho : σ.opened.map Opening.production = opened ++ [.endOfInput]) :
    σ'.opened.map Opening.production = ts.foldl openedBy opened ++ [.endOfInput] := by
  induction ts generalizing σ opened with
  | nil =>
    obtain rfl := Option.some.inj h
    exact ho
  | cons t ts ih =>
    obtain ⟨σ₁, hs, hr⟩ := Option.bind_eq_some_iff.mp h
    exact ih hr (fun u hu => hts u (by simp [hu]))
      (production_opened_step hs (hts t (by simp)) ho)

/-- The constructs of a situation are those that its tokens have left open, and around them the
    input. -/
theorem production_opened (h : Situation.start.run ts = some σ)
    (hts : ∀ t ∈ ts, t.kind ≠ .endOfInput) :
    σ.opened.map Opening.production = openConstructs ts ++ [.endOfInput] :=
  production_opened_run h hts rfl

/-- Behind some tokens an operand is required exactly if their situation has one due. -/
theorem operandRequired_iff (h : Situation.start.run ts = some σ) (hσ : σ.opened ≠ []) :
    OperandRequired ts ↔ σ.operandDue = true := by
  obtain ⟨due, opened⟩ := σ
  cases due with
  | true =>
    refine iff_of_true (fun t ht => ?_) rfl
    obtain ⟨σ', hr⟩ := viable_iff.mp ht
    rw [Situation.run_append, h, Option.bind_some, Situation.run_cons] at hr
    obtain ⟨σ₁, hs, _⟩ := Option.bind_eq_some_iff.mp hr
    rcases Situation.step_due_cases hs with ⟨hk | hk, _⟩ | ⟨hk, _⟩ | ⟨hk, _⟩ | ⟨hk, _⟩
    · exact .inl hk
    · exact .inr (.inl hk)
    · exact .inr (.inr (.inl hk))
    · exact .inr (.inr (.inr (.inl hk)))
    · exact .inr (.inr (.inr (.inr hk)))
  | false =>
    refine iff_of_false (fun hreq => ?_) Bool.false_ne_true
    obtain ⟨o, outer, rfl⟩ := List.exists_cons_of_ne_nil hσ
    -- An operator between two operands can go on, and it begins no operand.
    let star : Token := ⟨.symbol .star, .absent, .unknown⟩
    have hstar : Viable (ts ++ [star]) := viable_iff.mpr
      ⟨_, Situation.run_trans h (Situation.run_single (Situation.step_operator (by decide)))⟩
    rcases hreq star hstar with hk | hk | hk | hk | hk | hk <;> cases hk

/-- What is reported names an operand where one is required, and else the innermost construct. -/
theorem production_report (h : Situation.start.run ts = some σ)
    (hts : ∀ t ∈ ts, t.kind ≠ .endOfInput) :
    (σ.production = .primary ↔ OperandRequired ts) ∧
      (σ.production ≠ .primary → σ.production = (openConstructs ts).headD .endOfInput) := by
  have hopen := production_opened h hts
  have hne : σ.opened ≠ [] := by
    intro hnil
    rw [hnil] at hopen
    exact absurd hopen (by simp)
  rw [operandRequired_iff h hne]
  obtain ⟨due, opened⟩ := σ
  obtain ⟨o, outer, rfl⟩ := List.exists_cons_of_ne_nil hne
  cases due with
  | true => exact ⟨iff_of_true rfl rfl, fun h => absurd rfl h⟩
  | false =>
    have ho : o.production ≠ .primary := by cases o <;> simp [Opening.production]
    refine ⟨iff_of_false ho Bool.false_ne_true, fun _ => ?_⟩
    have hhead := congrArg List.head? hopen
    rw [List.map_cons, List.head?_cons, List.head?_append] at hhead
    show o.production = _
    cases hc : openConstructs ts with
    | nil => simpa [hc] using hhead
    | cons p ps => simpa [hc] using hhead

end Grammar

end ExprLang

import ExprLang.Expr.Parser
import ExprLang.Proofs.Expr.Grouping

/-! How a text can go on.

    Some tokens are viable if they begin a sentence with the end of the input behind it. Precedences
    do not matter for that: it is enough to know whether an operand is due and which constructs are
    open. Such a `Situation` changes with every token, and some tokens are viable exactly when they
    lead from the start to some situation (`viable_iff`). The hard direction is that every situation
    that is reached can be completed; `Completes` says by what, with whole operands in the place of
    their tokens, and a step back from a completion is one again (`Completes.of_step`). -/

namespace ExprLang.Grammar

/-- A construct that is open, and how far it has come. -/
inductive Opening where
  | input | parenthesis | condition | consequent | alternative
  deriving DecidableEq, Repr

namespace Opening

/-- The token that ends the expression inside a construct. -/
def closing : Opening → TokenKind
  | input => .endOfInput
  | parenthesis => .symbol .rightParen
  | condition => .keyword .thenWord
  | consequent => .keyword .elseWord
  | alternative => .keyword .endWord

/-- What a construct is called when a token does not fit into it. -/
def production : Opening → Production
  | input => .endOfInput
  | parenthesis => .parenthesized
  | condition | consequent | alternative => .conditional

theorem precedence_closing (o : Opening) : o.closing.precedence = 0 := by cases o <;> rfl

end Opening

/-- Whether an operand is due, and the constructs that are open, the innermost first. -/
structure Situation where
  operandDue : Bool
  opened : List Opening
  deriving DecidableEq, Repr

/-- The situation behind the token that ends the expression inside a construct: a choice goes on
    with its next branch, and any other construct is closed. -/
def Opening.closed : Opening → List Opening → Situation
  | condition, outer => ⟨true, consequent :: outer⟩
  | consequent, outer => ⟨true, alternative :: outer⟩
  | input, outer | parenthesis, outer | alternative, outer => ⟨false, outer⟩

namespace Situation

/-- The situation in front of a text. -/
def start : Situation := ⟨true, [.input]⟩

/-- The situation behind a token, if the token fits. -/
def step : Situation → Token → Option Situation
  | ⟨true, opened⟩, t =>
    match t.kind with
    | .integer | .identifier => some ⟨false, opened⟩
    | .symbol .leftParen => some ⟨true, .parenthesis :: opened⟩
    | .keyword .ifWord => some ⟨true, .condition :: opened⟩
    | .symbol .minus | .symbol .bang => some ⟨true, opened⟩
    | _ => none
  | ⟨false, []⟩, _ => none
  | ⟨false, o :: outer⟩, t =>
    if t.kind.precedence ≠ 0 then some ⟨true, o :: outer⟩
    else if t.kind = o.closing then some (o.closed outer)
    else none

/-- The situation behind some tokens, if each of them fits. -/
def run : Situation → List Token → Option Situation
  | σ, [] => some σ
  | σ, t :: ts => (σ.step t).bind fun σ' => σ'.run ts

/-- What is being read in a situation. -/
def production : Situation → Production
  | ⟨true, _⟩ => .primary
  | ⟨false, o :: _⟩ => o.production
  | ⟨false, []⟩ => .endOfInput

@[simp] theorem run_nil (σ : Situation) : σ.run [] = some σ := rfl

@[simp] theorem run_cons (σ : Situation) (t : Token) (ts : List Token) :
    σ.run (t :: ts) = (σ.step t).bind fun σ' => σ'.run ts := rfl

theorem run_append (σ : Situation) (ts us : List Token) :
    σ.run (ts ++ us) = (σ.run ts).bind fun σ' => σ'.run us := by
  induction ts generalizing σ with
  | nil => rfl
  | cons t ts ih =>
    rw [List.cons_append, run_cons, run_cons, Option.bind_assoc]
    exact congrArg (Option.bind _) (funext fun σ' => ih σ')

/-- Tokens that lead to a situation, and from it to another one, lead there together. -/
theorem run_trans {σ σ₁ σ' : Situation} {ts us : List Token} (h : σ.run ts = some σ₁)
    (h' : σ₁.run us = some σ') : σ.run (ts ++ us) = some σ' := by
  rw [run_append, h, Option.bind_some, h']

theorem run_single {σ σ' : Situation} {t : Token} (h : σ.step t = some σ') :
    σ.run [t] = some σ' := by
  rw [run_cons, h, Option.bind_some, run_nil]

variable {o : Opening} {opened outer : List Opening} {t : Token}

theorem step_operator (h : t.kind.precedence ≠ 0) :
    step ⟨false, o :: outer⟩ t = some ⟨true, o :: outer⟩ := if_pos h

theorem step_closing (h : t.kind = o.closing) :
    step ⟨false, o :: outer⟩ t = some (o.closed outer) := by
  have hp : ¬ t.kind.precedence ≠ 0 := by rw [h, o.precedence_closing]; simp
  rw [step, if_neg hp, if_pos h]

/-- Behind an operand nothing fits but an operator and the end of the innermost construct. -/
theorem step_eq_none (hp : t.kind.precedence = 0) (h : t.kind ≠ o.closing) :
    step ⟨false, o :: outer⟩ t = none := by
  rw [step, if_neg (by simp [hp]), if_neg h]

theorem step_leaf (h : t.kind = .integer ∨ t.kind = .identifier) :
    step ⟨true, opened⟩ t = some ⟨false, opened⟩ := by
  rcases h with h | h <;> simp only [step, h]

theorem step_leftParen (h : t.kind = .symbol .leftParen) :
    step ⟨true, opened⟩ t = some ⟨true, .parenthesis :: opened⟩ := by simp only [step, h]

theorem step_ifWord (h : t.kind = .keyword .ifWord) :
    step ⟨true, opened⟩ t = some ⟨true, .condition :: opened⟩ := by simp only [step, h]

theorem step_leading (h : Leading t) : step ⟨true, opened⟩ t = some ⟨true, opened⟩ := by
  rcases h with h | h <;> simp only [step, h]

/-- The ways to take a token where an operand is due. -/
theorem step_due_cases {σ : Situation} (h : step ⟨true, opened⟩ t = some σ) :
    ((t.kind = .integer ∨ t.kind = .identifier) ∧ σ = ⟨false, opened⟩) ∨
    (t.kind = .symbol .leftParen ∧ σ = ⟨true, .parenthesis :: opened⟩) ∨
    (t.kind = .keyword .ifWord ∧ σ = ⟨true, .condition :: opened⟩) ∨
    (Leading t ∧ σ = ⟨true, opened⟩) := by
  simp only [step] at h
  split at h
  · rename_i hk
    exact .inl ⟨.inl hk, (Option.some.inj h).symm⟩
  · rename_i hk
    exact .inl ⟨.inr hk, (Option.some.inj h).symm⟩
  · rename_i hk
    exact .inr (.inl ⟨hk, (Option.some.inj h).symm⟩)
  · rename_i hk
    exact .inr (.inr (.inl ⟨hk, (Option.some.inj h).symm⟩))
  · rename_i hk
    exact .inr (.inr (.inr ⟨.inl hk, (Option.some.inj h).symm⟩))
  · rename_i hk
    exact .inr (.inr (.inr ⟨.inr hk, (Option.some.inj h).symm⟩))
  · cases h

/-- The ways to take a token behind an operand. -/
theorem step_not_due_cases {σ : Situation} (h : step ⟨false, opened⟩ t = some σ) :
    ∃ o outer, opened = o :: outer ∧ ((t.kind.precedence ≠ 0 ∧ σ = ⟨true, o :: outer⟩) ∨
      (t.kind = o.closing ∧ σ = o.closed outer)) := by
  cases opened with
  | nil => cases h
  | cons o outer =>
    refine ⟨o, outer, rfl, ?_⟩
    by_cases hp : t.kind.precedence ≠ 0
    · rw [step_operator hp] at h
      exact .inl ⟨hp, (Option.some.inj h).symm⟩
    · by_cases hc : t.kind = o.closing
      · rw [step_closing hc] at h
        exact .inr ⟨hc, (Option.some.inj h).symm⟩
      · rw [step_eq_none (Decidable.not_not.mp hp) hc] at h
        cases h

end Situation

open Situation

/-- What a category derives leads from where an operand is due to behind it, whatever is open. -/
theorem Derives.run {c : Category} {ts : List Token} {e : Expr} (h : Derives c ts e)
    (o : Opening) (outer : List Opening) :
    run ⟨true, o :: outer⟩ ts = some ⟨false, o :: outer⟩ := by
  induction h generalizing o outer with
  | @binary c s t _ _ _ _ ht hs _ _ ihl ihr =>
    have hp : t.kind.precedence ≠ 0 := by
      rw [Category.precedence_eq_rank ht hs]
      exact Nat.ne_of_gt c.rank_pos
    exact run_trans (ihl o outer) (by rw [run_cons, step_operator hp, Option.bind_some, ihr])
  | tighter _ _ ih => exact ih o outer
  | prefixed ht _ ih => rw [run_cons, step_leading ht, Option.bind_some, ih]
  | integer ht => exact run_single (step_leaf (.inl ht))
  | identifier ht => exact run_single (step_leaf (.inr ht))
  | parenthesized hl _ hr ih =>
    rw [run_cons, step_leftParen hl, Option.bind_some]
    exact run_trans (ih _ _) (run_single (step_closing (o := .parenthesis) hr))
  | conditional hi _ ht _ he _ hn ihc ihx ihy =>
    rw [run_cons, step_ifWord hi, Option.bind_some]
    refine run_trans (ihc _ _) ?_
    rw [run_cons, step_closing (o := .condition) ht, Option.bind_some]
    refine run_trans (ihx _ _) ?_
    rw [run_cons, step_closing (o := .consequent) he, Option.bind_some]
    exact run_trans (ihy _ _) (run_single (step_closing (o := .alternative) hn))

/-! ### Completions -/

/-- Some tokens lead on from a situation to behind the end of the input. -/
inductive Completes : Situation → List Token → Prop
  | done : Completes ⟨false, []⟩ []
  | operand {opened : List Opening} {us vs : List Token} {e : Expr} :
    Derives .operand us e → Completes ⟨false, opened⟩ vs → Completes ⟨true, opened⟩ (us ++ vs)
  | operator {o : Opening} {outer : List Opening} {t : Token} {vs : List Token} :
    t.kind.precedence ≠ 0 → Completes ⟨true, o :: outer⟩ vs →
    Completes ⟨false, o :: outer⟩ (t :: vs)
  | closing {o : Opening} {outer : List Opening} {t : Token} {vs : List Token} :
    t.kind = o.closing → Completes (o.closed outer) vs → Completes ⟨false, o :: outer⟩ (t :: vs)

namespace Completes

variable {o : Opening} {opened outer : List Opening} {t : Token} {vs : List Token}

/-- A completion goes through a chain of links to the end of the innermost construct. -/
theorem exists_chain {σ : Situation} (h : Completes σ vs) (hσ : σ.opened = o :: outer) :
    ∃ us ks t ws, vs = us ++ (chainTokens ks ++ t :: ws) ∧
      (if σ.operandDue then ∃ e, Derives .operand us e else us = []) ∧
      (∀ k ∈ ks, k.Proper) ∧ t.kind = o.closing ∧ Completes (o.closed outer) ws := by
  induction h with
  | done => cases hσ
  | operand hus _ ih =>
    obtain ⟨_, ks, t, ws, rfl, rfl, hks, ht, hws⟩ := ih hσ
    exact ⟨_, ks, t, ws, rfl, ⟨_, hus⟩, hks, ht, hws⟩
  | @operator _ _ op _ hp _ ih =>
    obtain ⟨us, ks, t, ws, rfl, ⟨e, hus⟩, hks, ht, hws⟩ := ih hσ
    refine ⟨[], ⟨op, us, e⟩ :: ks, t, ws, ?_, rfl, ?_, ht, hws⟩
    · simp only [chainTokens_cons, List.nil_append, List.cons_append, List.append_assoc]
    · intro k hk
      rcases List.mem_cons.mp hk with rfl | hk
      · exact ⟨hp, hus⟩
      · exact hks k hk
  | closing ht hws _ =>
    injection hσ with h₁ h₂
    subst h₁ h₂
    exact ⟨[], [], _, _, rfl, rfl, by simp, ht, hws⟩

/-- A completion begins with a sentence and the end of the innermost construct. -/
theorem exists_sentence (h : Completes ⟨true, o :: outer⟩ vs) :
    ∃ ts e t ws, vs = ts ++ t :: ws ∧ Sentence ts e ∧ t.kind = o.closing ∧
      Completes (o.closed outer) ws := by
  obtain ⟨us, ks, t, ws, rfl, ⟨left, hus⟩, hks, ht, hws⟩ := h.exists_chain rfl
  obtain ⟨e, hg⟩ := exists_grouped left ks
  refine ⟨us ++ chainTokens ks, e, t, ws, (List.append_assoc ..).symm, ?_, ht, hws⟩
  exact derives_of_grouped hg (by decide) hus fun k hk =>
    ⟨hks k hk, Nat.pos_of_ne_zero (hks k hk).1⟩

theorem of_primary {us : List Token} {e : Expr} (hus : Derives .primary us e)
    (h : Completes ⟨false, opened⟩ vs) : Completes ⟨true, opened⟩ (us ++ vs) :=
  .operand hus.operand_of_primary h

/-- A token that fits, in front of a completion of what it leads to, is a completion. -/
theorem of_step {σ σ' : Situation} (hs : σ.step t = some σ') (h : Completes σ' vs) :
    Completes σ (t :: vs) := by
  obtain ⟨due, opened⟩ := σ
  cases due with
  | false =>
    obtain ⟨o, outer, rfl, ⟨hp, rfl⟩ | ⟨hc, rfl⟩⟩ := step_not_due_cases hs
    · exact .operator hp h
    · exact .closing hc h
  | true =>
    rcases step_due_cases hs with ⟨ht, rfl⟩ | ⟨ht, rfl⟩ | ⟨ht, rfl⟩ | ⟨ht, rfl⟩
    · rcases ht with ht | ht
      · exact of_primary (.integer ht) h
      · exact of_primary (.identifier ht) h
    · obtain ⟨ts, e, r, ws, rfl, hts, hr, hws⟩ := h.exists_sentence
      simpa using of_primary (.parenthesized ht hts hr) hws
    · obtain ⟨cs, c, th, ws, rfl, hc, hth, h⟩ := h.exists_sentence
      obtain ⟨ts, x, el, ws, rfl, hx, hel, h⟩ := h.exists_sentence
      obtain ⟨es, y, en, ws, rfl, hy, hen, h⟩ := h.exists_sentence
      simpa using of_primary (.conditional ht hc hth hx hel hy hen) h
    · generalize hσ : (⟨true, opened⟩ : Situation) = σ at h
      cases h with
      | operand hus h =>
        injection hσ with _ hσ
        subst hσ
        exact .operand (.prefixed ht hus) h
      | done | operator | closing => injection hσ with hσ _; cases hσ

/-- Tokens that fit, in front of a completion of what they lead to, are a completion. -/
theorem of_run {σ σ' : Situation} {ts : List Token} (hr : σ.run ts = some σ')
    (h : Completes σ' vs) : Completes σ (ts ++ vs) := by
  induction ts generalizing σ with
  | nil =>
    obtain rfl := Option.some.inj hr
    exact h
  | cons t ts ih =>
    obtain ⟨σ₁, hs, hr⟩ := Option.bind_eq_some_iff.mp hr
    exact of_step hs (ih hr)

end Completes

/-- Where an operand is due there is a completion if there is one behind an operand. -/
theorem exists_completes_due {opened : List Opening} (h : ∃ vs, Completes ⟨false, opened⟩ vs) :
    ∃ vs, Completes ⟨true, opened⟩ vs := by
  obtain ⟨vs, h⟩ := h
  exact ⟨_, .of_primary (.integer (t := ⟨.integer, .number 0, .unknown⟩) rfl) h⟩

/-- An expression can be ended if there is a completion behind its end. -/
theorem exists_completes_closed {o : Opening} {outer : List Opening}
    (h : ∃ vs, Completes (o.closed outer) vs) : ∃ vs, Completes ⟨false, o :: outer⟩ vs := by
  obtain ⟨vs, h⟩ := h
  exact ⟨_, .closing (t := ⟨o.closing, .absent, .unknown⟩) rfl h⟩

/-- Every situation has a completion. -/
theorem exists_completes (σ : Situation) : ∃ vs, Completes σ vs := by
  have behind (opened : List Opening) : ∃ vs, Completes ⟨false, opened⟩ vs := by
    induction opened with
    | nil => exact ⟨[], .done⟩
    | cons o outer ih =>
      have ha := exists_completes_closed (o := .alternative) ih
      have hc := exists_completes_closed (o := .consequent) (exists_completes_due ha)
      cases o with
      | input | parenthesis => exact exists_completes_closed ih
      | alternative => exact ha
      | consequent => exact hc
      | condition => exact exists_completes_closed (exists_completes_due hc)
  obtain ⟨due, opened⟩ := σ
  cases due with
  | false => exact behind opened
  | true => exact exists_completes_due (behind opened)

/-! ### Viable tokens -/

/-- Some tokens begin a sentence with the end of the input behind it. -/
def Viable (ts : List Token) : Prop :=
  ∃ us e last, Sentence us e ∧ last.kind = .endOfInput ∧ ts <+: us ++ [last]

/-- What is in front of viable tokens is viable. -/
theorem Viable.of_prefix {ts us : List Token} (h : Viable ts) (hus : us <+: ts) : Viable us := by
  obtain ⟨vs, e, last, hvs, hlast, hts⟩ := h
  exact ⟨vs, e, last, hvs, hlast, hus.trans hts⟩

/-- A sentence leads from the start to where only the end of the input is left. -/
theorem Sentence.run {ts : List Token} {e : Expr} (h : Sentence ts e) :
    start.run ts = some ⟨false, [.input]⟩ := Derives.run h _ _

/-- Tokens are viable if and only if each of them fits. -/
theorem viable_iff {ts : List Token} : Viable ts ↔ ∃ σ, start.run ts = some σ := by
  constructor
  · rintro ⟨us, e, last, hus, hlast, vs, hvs⟩
    have hrun : start.run (us ++ [last]) = some ⟨false, []⟩ :=
      run_trans hus.run (run_single (step_closing (o := .input) hlast))
    rw [← hvs, run_append] at hrun
    obtain ⟨σ, hσ, _⟩ := Option.bind_eq_some_iff.mp hrun
    exact ⟨σ, hσ⟩
  · rintro ⟨σ, hσ⟩
    obtain ⟨vs, hvs⟩ := exists_completes σ
    obtain ⟨us, e, last, ws, heq, hus, hlast, hws⟩ := (Completes.of_run hσ hvs).exists_sentence
    cases hws
    exact ⟨us, e, last, hus, hlast, vs, heq⟩

end ExprLang.Grammar

import ExprLang.Proofs.Expr.Nesting
import ExprLang.Proofs.Expr.Unambiguity

/-! The texts that have a tree.

    A text has a tree exactly if all of it can be read as tokens and these are a sentence of the
    grammar, and then it has the tree of the sentence. Soundness comes from what the readers do.
    For the other direction nothing has to be known about how they do it: every token of a sentence
    fits, so no token is refused, and the tree that is built is the only one that the sentence
    has. -/

namespace ExprLang

open Grammar

namespace Grammar

/-- A category derives some tokens, with a tree of this shape. -/
def DerivesShape (c : Category) (ts : List Token) (shape : Expr) : Prop :=
  ∃ e, Derives c ts e ∧ e.unplaced = shape

/-- Some tokens are a sentence, with a tree of this shape. -/
def Spells (ts : List Token) (shape : Expr) : Prop := DerivesShape .disjunction ts shape

/-- Tokens spell at most one shape. -/
theorem Spells.unique {ts : List Token} {shape shape' : Expr} (h : Spells ts shape)
    (h' : Spells ts shape') : shape = shape' := by
  obtain ⟨e, he, rfl⟩ := h
  obtain ⟨e', he', rfl⟩ := h'
  rw [Derives.unique he he']

end Grammar

/-- A text whose tokens are a sentence has the tree of the sentence, unless it is too deep. -/
theorem parseWithin_of_sentence {depth : Nat} {s : String} {ts : List Token} {last : Token}
    {e : Expr} (hs : tokensOf s = .ok (ts ++ [last])) (hlast : last.kind = .endOfInput)
    (hts : Sentence ts e) (hd : parseWithin depth s ≠ .error .tooDeep) :
    parseWithin depth s = .ok e := by
  obtain ⟨htok, herr⟩ := tokensOf_eq_ok_iff.mp hs
  cases h : parseWithin depth s with
  | ok e' =>
    obtain ⟨us, last', htok', _, _, hus⟩ := run_of_parseWithin_ok h
    rw [htok] at htok'
    obtain ⟨rfl, _⟩ := List.append_inj' htok' rfl
    rw [Derives.unique hts hus]
  | error err =>
    cases err with
    | lexical l =>
      have := (run_of_parseWithin_lexical h).1
      rw [herr] at this
      cases this
    | unexpected t production =>
      obtain ⟨us, rest, σ, htok', _, hσ, ht, _⟩ := run_of_parseWithin_unexpected h
      have hviable : Viable (us ++ [t]) :=
        ⟨ts, e, last, hts, hlast, rest, by rw [← htok, htok']; simp⟩
      obtain ⟨σ', hσ'⟩ := viable_iff.mp hviable
      rw [Situation.run_append, hσ, Option.bind_some, Situation.run_cons, ht] at hσ'
      cases hσ'
    | slotOccupied o => exact absurd h (parseWithin_ne_slotOccupied o)
    | tooDeep => exact absurd h hd

/-- With a budget that is deep enough for it, a text has a tree of some shape if and only if it can be
    read as tokens and these, without the end of the input, spell the shape; and no tokens spell two
    shapes. -/
theorem parseWithin_ok_iff_spells (depth : Nat) (s : String) (shape : Expr) :
    (DeepEnough depth s →
      ((∃ e, parseWithin depth s = .ok e ∧ e.unplaced = shape) ↔
        ∃ ts last, tokensOf s = .ok (ts ++ [last]) ∧ last.kind = .endOfInput ∧ Spells ts shape)) ∧
    ∀ ts shape', Spells ts shape → Spells ts shape' → shape = shape' := by
  refine ⟨fun hd => ⟨?_, ?_⟩, fun ts shape' h h' => h.unique h'⟩
  · rintro ⟨e, he, hshape⟩
    obtain ⟨ts, last, htok, herr, hlast, hts⟩ := run_of_parseWithin_ok he
    exact ⟨ts, last, tokensOf_eq_ok_iff.mpr ⟨htok, herr⟩, hlast, e, hts, hshape⟩
  · rintro ⟨ts, last, htok, hlast, e, hts, hshape⟩
    exact ⟨e, parseWithin_of_sentence htok hlast hts hd.ne_tooDeep, hshape⟩

/-- In `1 - 2 * (x - 3) - !y` the last minus stands over the first one. -/
theorem parseWithin_ok_iff_spells_difference :
    let text := "1 - 2 * (x - 3) - !y"
    let left : Expr := .binary .unknown (.text "-") (.integer .unknown (.number 1))
      (.binary .unknown (.text "*") (.integer .unknown (.number 2))
        (.binary .unknown (.text "-") (.identifier .unknown (.text "x"))
          (.integer .unknown (.number 3))))
    let shape : Expr := .binary .unknown (.text "-") left
      (.unary .unknown (.text "!") (.identifier .unknown (.text "y")))
    DeepEnough 20 text ∧ (∃ e, parseWithin 20 text = .ok e ∧ e.unplaced = shape) ∧
      ∃ ts last, tokensOf text = .ok (ts ++ [last]) ∧ last.kind = .endOfInput ∧
        ∀ shape', Spells ts shape' ↔ shape' = shape := by
  intro text left shape
  have hdeep : DeepEnough 20 text := by decide +kernel
  have hshape : (parseWithin 20 text).toOption.map Expr.unplaced = some shape := by decide +kernel
  have hparse : ∃ e, parseWithin 20 text = .ok e ∧ e.unplaced = shape := by
    cases he : parseWithin 20 text with
    | error err =>
      rw [he] at hshape
      cases hshape
    | ok e =>
      rw [he] at hshape
      exact ⟨e, rfl, Option.some.inj hshape⟩
  obtain ⟨hiff, hunique⟩ := parseWithin_ok_iff_spells 20 text shape
  obtain ⟨ts, last, htok, hlast, hts⟩ := (hiff hdeep).mp hparse
  refine ⟨hdeep, hparse, ts, last, htok, hlast, fun shape' =>
    ⟨fun h => (hunique ts shape' hts h).symm, ?_⟩⟩
  rintro rfl
  exact hts

end ExprLang

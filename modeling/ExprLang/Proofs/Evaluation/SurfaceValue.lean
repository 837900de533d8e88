import ExprLang.Proofs.Evaluation.Soundness
import ExprLang.Proofs.Expr.Relocation
import ExprLang.Proofs.Expr.RoundTrip

/-! The text of a tree is worth what the tree is worth.

    A number below zero comes back from the text of a tree as a negation, so a tree with such
    numbers is not the tree of its text. Its value is all the same: negating the number without its
    sign gives the number again, and nothing else changes (`eval_spelled`). Only the least number of
    sixty-four bits would not come back, since what stands behind the minus is too large. -/

namespace ExprLang

open Word64

/-- A number that fits is worth what it is spelled as, be it a number or a negation. -/
theorem Expr.eval_spelled_integer {n : Int} (hn : Fits n) (p : Position) :
    (Expr.integer p (.number n)).spelled.eval = .ok (.number n) := by
  rw [spelled]
  split
  · have hwrap : wrap n = n := wrap_eq_self hn.1 hn.2
    simp [eval, Evaluation.applyUnary, UnaryOp.ofValue?_text, hwrap, bind, Except.bind]
  · rfl

/-- The tree that the text of a tree spells has the value of the tree. -/
theorem Expr.eval_spelled {e : Expr} (h : e.Regular Fits) : e.spelled.eval = e.unplaced.eval := by
  induction e with
  | integer p v =>
    obtain ⟨n, rfl, hn⟩ := h
    exact eval_spelled_integer hn p
  | identifier p v => rfl
  | conditional p c t e ihc iht ihe =>
    obtain ⟨hc, ht, he⟩ := h
    simp only [spelled, unplaced, eval, ihc hc, iht ht, ihe he]
  | unary p op e ih => simp only [spelled, unplaced, eval, ih h.2]
  | binary p op l r ihl ihr =>
    obtain ⟨-, hl, hr⟩ := h
    simp only [spelled, unplaced, eval, ihl hl, ihr hr]

namespace Evaluation

/-- A text gives the number that a tree gives, or it is reported with the error that the tree fails
    with, the same operator or name in it. The positions may differ. -/
inductive EndsAlike : Except Failure Value → Except EvalError Value → Prop
  | value (n : Int) : EndsAlike (.ok (.number n)) (.ok (.number n))
  | divisionByZero (op : String) (p q : Position) :
    EndsAlike (.error (.reported ⟨.divisionByZero op, p⟩)) (.error (.divisionByZero op q))
  | overflow (op : String) (p q : Position) :
    EndsAlike (.error (.reported ⟨.overflow op, p⟩)) (.error (.overflow op q))
  | unbound (name : String) (p q : Position) :
    EndsAlike (.error (.reported ⟨.unbound (.text name), p⟩)) (.error (.unbound (.text name) q))

/-- An error that a tree is to blame for is reported alike wherever it occurs. -/
theorem endsAlike_of_blames {root : Expr} {err err' : EvalError} (h : Blames root err)
    (herr : (err'.relocate fun _ => .unknown) = err.relocate fun _ => .unknown) :
    EndsAlike (.error err'.failure) (.error err) := by
  cases h with
  | undefined _ hundefined =>
    cases hundefined <;> cases err' <;> cases herr <;> constructor
  | unbound =>
    cases err' <;> cases herr
    exact .unbound _ _ _

/-- Trees that are worth the same where no position is known end alike. -/
theorem endsAlike_of_unplaced {e e' : Expr} (h : e.Regular Fits)
    (heval : e'.unplaced.eval = e.unplaced.eval) :
    EndsAlike ((evaluate e').mapError EvalError.failure) (evaluate e) := by
  have hyields := evaluate_sound h
  rcases evaluate_agrees heval with ⟨v, hv', hv⟩ | ⟨err', err, hv', hv, herr⟩
  · rw [hv] at hyields
    obtain ⟨n, rfl, -⟩ := hyields
    rw [hv, hv']
    exact .value n
  · rw [hv] at hyields
    rw [hv, hv']
    exact endsAlike_of_blames hyields herr

end Evaluation

open Evaluation

/-- Evaluating the text of a tree comes to the same as evaluating the tree, also where numbers below
    zero stand in it: the same number, or an error of the same kind about the same operator or name.
    Any budget will do that is deep enough for the text. -/
theorem evaluateTextWithin_surfaceText {e : Expr}
    (h : e.Regular fun n => -maxValue ≤ n ∧ n ≤ maxValue) :
    ∃ text, e.surfaceText? = some text ∧ ∀ depth, DeepEnough depth text →
      EndsAlike (evaluateTextWithin depth text) (evaluate e) := by
  refine ⟨e.surface, Expr.assemble_eq Expr.surface_eq_surfaceNode e, fun depth hd => ?_⟩
  have hspell : e.Regular fun n => (n.natAbs : Int) ≤ maxValue := h.mono fun n hn => by omega
  have hfits : e.Regular Fits := h.mono fun n hn => ⟨Int.le_trans (by decide) hn.1, hn.2⟩
  obtain ⟨ts, last, htok, hlast, e', hts, hshape⟩ := Expr.tokensOf_surface hspell
  have hparse := parseWithin_of_sentence htok hlast hts hd.ne_tooDeep
  rw [evaluateTextWithin_of_ok hparse]
  refine endsAlike_of_unplaced hfits ?_
  rw [hshape, Expr.eval_spelled hfits]

/-- A number below zero behind a sign of its own and one behind a star come back as negations, and
    the product is the same. -/
theorem evaluateTextWithin_surfaceText_product :
    let tree : Expr := .binary ⟨0, 0⟩ (.text "*")
      (.unary ⟨0, 0⟩ (.text "-") (.integer ⟨0, 0⟩ (.number (-7)))) (.integer ⟨0, 0⟩ (.number (-6)))
    tree.surfaceText? = some "--7 * -6" ∧ DeepEnough 10 "--7 * -6" ∧
      evaluate tree = .ok (.number (-42)) ∧
      evaluateTextWithin 10 "--7 * -6" = .ok (.number (-42)) := by
  intro tree
  have hregular : tree.Regular fun n => -maxValue ≤ n ∧ n ≤ maxValue :=
    ⟨⟨.arithmetic .multiply, rfl⟩, ⟨⟨.negate, rfl⟩, -7, rfl, by decide⟩, -6, rfl, by decide⟩
  have htext : tree.surfaceText? = some "--7 * -6" :=
    Expr.assemble_eq Expr.surface_eq_surfaceNode tree
  have hvalue : evaluate tree = .ok (.number (-42)) := evaluate_of_ok rfl
  obtain ⟨text, hsome, hends⟩ := evaluateTextWithin_surfaceText hregular
  obtain rfl := Option.some.inj (hsome.symm.trans htext)
  have hdeep : DeepEnough 10 "--7 * -6" := by decide +kernel
  have halike := hends 10 hdeep
  rw [hvalue] at halike
  refine ⟨htext, hdeep, hvalue, ?_⟩
  generalize evaluateTextWithin 10 "--7 * -6" = outcome at halike
  cases halike
  rfl

end ExprLang

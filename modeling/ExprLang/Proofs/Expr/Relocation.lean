import ExprLang.Expr.Outline
import ExprLang.Failure
import ExprLang.Proofs.Evaluation.Refinement
import ExprLang.Proofs.Expr.Assembly
import ExprLang.Proofs.Expr.Grammar

/-! Trees at other places.

    A tree is relocated by giving each of its nodes another position, and so are tokens and errors.
    What a tree says about itself does not look at positions, so its outline and its text stay as
    they are. The evaluation decides nothing by them either: a relocated tree has the same value, or
    it fails with the same error at the other place (`eval_relocate`). To forget where a tree stands
    is to relocate all of it to one place (`relocate_unknown`). -/

namespace ExprLang

/-- A token at another place. -/
def Token.relocate (f : Position → Position) (t : Token) : Token := ⟨t.kind, t.value, f t.position⟩

/-- A tree with its nodes at other places. -/
def Expr.relocate (f : Position → Position) : Expr → Expr
  | .integer p v => .integer (f p) v
  | .identifier p n => .identifier (f p) n
  | .conditional p c t e => .conditional (f p) (c.relocate f) (t.relocate f) (e.relocate f)
  | .unary p op e => .unary (f p) op (e.relocate f)
  | .binary p op l r => .binary (f p) op (l.relocate f) (r.relocate f)

/-- An error of the evaluation at another place. -/
def EvalError.relocate (f : Position → Position) : EvalError → EvalError
  | .divisionByZero op p => .divisionByZero op (f p)
  | .overflow op p => .overflow op (f p)
  | .unbound name p => .unbound name (f p)
  | e => e

namespace Expr

variable (f : Position → Position)

theorem relocate_id (e : Expr) : e.relocate id = e := by
  induction e <;> simp_all [relocate]

theorem relocate_unknown (e : Expr) : (e.relocate fun _ => .unknown) = e.unplaced := by
  induction e <;> simp_all [relocate, unplaced]

/-! ### What a tree looks like -/

theorem label_relocate (e : Expr) : (e.relocate f).label = e.label := by cases e <;> rfl

theorem isCompound_relocate (e : Expr) : (e.relocate f).isCompound = e.isCompound := by
  cases e <;> rfl

theorem children_relocate (e : Expr) :
    (e.relocate f).children = e.children.map fun c => (c.1, c.2.relocate f) := by
  cases e <;> rfl

theorem surface_relocate (e : Expr) : (e.relocate f).surface = e.surface := by
  induction e <;> simp_all [relocate, surface, wrapped, isCompound_relocate]

/-- A place in a walk with the node there at another position. -/
def Place.relocate (p : Place) : Place := ⟨p.node.relocate f, p.depth, p.parent⟩

/-- A turn in a walk with the node whose turn it is at another position. -/
def Visit.relocate (v : Visit) : Visit := ⟨v.toPlace.relocate f, v.index⟩

theorem Visit.below_relocate (v : Visit) :
    (v.relocate f).below = v.below.map (Place.relocate f) := by
  simp only [below, relocate, Place.relocate, children_relocate, List.map_map]
  rfl

/-- A walk takes the same turns wherever the nodes stand. -/
theorem visitAll_relocate (index : Nat) (places : List Place) :
    visitAll index (places.map (Place.relocate f)) =
      (visitAll index places).map (Visit.relocate f) := by
  fun_induction visitAll index places with
  | case1 index => rw [List.map_nil, visitAll, List.map_nil]
  | case2 index p work v ih =>
    have hbelow : Visit.below ⟨p.relocate f, index⟩ = v.below.map (Place.relocate f) :=
      v.below_relocate f
    rw [List.map_cons, visitAll, hbelow, ← List.map_append, ih]
    rfl

theorem outline_relocate (indent : Int) (e : Expr) :
    (e.relocate f).outline indent = e.outline indent := by
  have hwalk : (e.relocate f).preorder = e.preorder.map (Visit.relocate f) :=
    visitAll_relocate f 0 [⟨e, 0, none⟩]
  rw [outline, outline, outlineLines, outlineLines, hwalk, List.map_map]
  congr 1
  refine List.map_congr_left fun v _ => ?_
  simp only [Function.comp_apply, Visit.relocate, Place.relocate, label_relocate]

end Expr

/-! ### What a tree is worth -/

namespace Evaluation

variable (f : Position → Position)

theorem applyUnary_relocate (op v : Value) :
    (applyUnary op v).mapError (EvalError.relocate f) = applyUnary op v := by
  unfold applyUnary
  split <;> rfl

theorem combine_relocate (p : Position) (op : ArithmeticOp) (m n : Int) :
    (combine p op m n).mapError (EvalError.relocate f) = combine (f p) op m n := by
  have hcheck : (checkDivisor p op m n).mapError (EvalError.relocate f) =
      checkDivisor (f p) op m n := by
    unfold checkDivisor
    split
    · rfl
    · split <;> rfl
  cases op with
  | divide | remainder =>
    rw [combine, combine, ← hcheck]
    cases checkDivisor p _ m n <;> rfl
  | _ => rfl

theorem productError_relocate (l r : Value) :
    (productError l r).relocate f = productError l r := by
  unfold productError
  split
  · split <;> rfl
  · split <;> rfl
  · rfl

theorem compare_relocate (p : Position) (op : ArithmeticOp) (l r : Value) :
    (compare p op l r).mapError (EvalError.relocate f) = compare (f p) op l r := by
  cases op with
  | divide | remainder =>
    simp only [compare, mapError_error]
    split <;> rfl
  | multiply => exact congrArg Except.error (productError_relocate f l r)
  | _ => rfl

theorem applyBinary_relocate (p : Position) (op l r : Value) :
    (applyBinary p op l r).mapError (EvalError.relocate f) = applyBinary (f p) op l r := by
  unfold applyBinary
  split
  · rename_i a ha
    split
    · rename_i m n
      rw [← combine_relocate f p a m n]
      cases combine p a m n <;> rfl
    · exact compare_relocate f p a l r
  · rfl
  · rfl

end Evaluation

/-- A tree has the same value wherever it stands, or it fails with the same error, which has another
    place then. -/
theorem Expr.eval_relocate (f : Position → Position) (e : Expr) :
    (e.relocate f).eval = e.eval.mapError (EvalError.relocate f) := by
  induction e with
  | integer p v => rfl
  | identifier p n => rfl
  | conditional p c t e ihc iht ihe =>
    rw [relocate, eval, eval, ihc]
    cases c.eval with
    | error err => rfl
    | ok v =>
      show (if Evaluation.isFalse v then (e.relocate f).eval else (t.relocate f).eval) =
        (if Evaluation.isFalse v then e.eval else t.eval).mapError _
      split
      · exact ihe
      · exact iht
  | unary p op e ih =>
    rw [relocate, eval, eval, ih]
    cases e.eval with
    | error err => rfl
    | ok v => exact (Evaluation.applyUnary_relocate f op v).symm
  | binary p op l r ihl ihr =>
    rw [relocate, eval, eval, ihl, ihr]
    cases l.eval with
    | error err => rfl
    | ok v =>
      simp only [mapError_ok, bind, Except.bind]
      cases hop : Evaluation.logicalOp? op with
      | none =>
        cases r.eval with
        | error err => rfl
        | ok w => exact (Evaluation.applyBinary_relocate f p op v w).symm
      | some logical =>
        cases hd : Evaluation.decided? logical v with
        | some w =>
          simp only [hd]
          rfl
        | none =>
          simp only [hd]
          cases r.eval <;> rfl

/-- The machine, too, minds no position. -/
theorem Evaluation.evaluate_relocate (f : Position → Position) (e : Expr) :
    evaluate (e.relocate f) = (evaluate e).mapError (EvalError.relocate f) := by
  rw [evaluate, evaluate, Machine.start, Machine.start, Machine.run_eval, Machine.run_eval,
    e.eval_relocate]
  cases e.eval with
  | error err => rfl
  | ok v => simp only [mapError_ok, Except.bind, Machine.run_nil]

/-- Trees that are worth the same where no position is known have the same value, or they fail with
    the same error but for its place. -/
theorem Evaluation.evaluate_agrees {e e' : Expr} (h : e.unplaced.eval = e'.unplaced.eval) :
    (∃ v, evaluate e = .ok v ∧ evaluate e' = .ok v) ∨
      ∃ err err', evaluate e = .error err ∧ evaluate e' = .error err' ∧
        (err.relocate fun _ => .unknown) = err'.relocate fun _ => .unknown := by
  have hsame : evaluate e.unplaced = evaluate e'.unplaced := by
    rw [evaluate, evaluate, Machine.start, Machine.start, Machine.run_eval, Machine.run_eval, h]
  rw [← e.relocate_unknown, ← e'.relocate_unknown, evaluate_relocate, evaluate_relocate] at hsame
  cases hv : evaluate e with
  | ok v =>
    cases hv' : evaluate e' with
    | ok v' =>
      rw [hv, hv'] at hsame
      exact .inl ⟨v, rfl, congrArg Except.ok (Except.ok.inj hsame).symm⟩
    | error err' =>
      rw [hv, hv'] at hsame
      cases hsame
  | error err =>
    cases hv' : evaluate e' with
    | ok v' =>
      rw [hv, hv'] at hsame
      cases hsame
    | error err' =>
      rw [hv, hv'] at hsame
      exact .inr ⟨err, err', rfl, rfl, Except.error.inj hsame⟩

end ExprLang

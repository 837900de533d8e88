import ExprLang.Evaluation.Basic

/-! Sixty-four bits are enough.

    Between numbers of sixty-four bits every operator gives another one, or it is a division that
    has none. For sums, differences and products this is the point of wrapping. A quotient leaves
    the range only in the division that is refused (`fits_quotient`), and a remainder never does.
    What an operation gives, and what it fails with, is stated together (`Yields`), so that what is
    known of its parts carries over to the whole. -/

namespace ExprLang

namespace Word64

/-- A number of sixty-four bits. -/
def Fits (n : Int) : Prop := minValue ≤ n ∧ n ≤ maxValue

instance (n : Int) : Decidable (Fits n) := inferInstanceAs (Decidable (_ ∧ _))

variable {n d : Int}

theorem fits_wrap (n : Int) : Fits (wrap n) := ⟨minValue_le_wrap n, wrap_le_maxValue n⟩

theorem fits_of_nonneg (hn : 0 ≤ n) (hmax : n ≤ maxValue) : Fits n :=
  ⟨Int.le_trans (by decide) hn, hmax⟩

theorem fits_ofBool (b : Bool) : Fits (ofBool b) := by
  cases b <;> simp [Fits, ofBool, minValue, maxValue]

/-! ### Quotients and remainders -/

theorem quotient_natCast (m k : Nat) : quotient m k = ((m / k : Nat) : Int) := by
  have hm : ¬ (m : Int) < 0 := Int.not_lt.mpr (Int.natCast_nonneg m)
  have hk : ¬ (k : Int) < 0 := Int.not_lt.mpr (Int.natCast_nonneg k)
  simp [quotient, hm, hk]

theorem quotient_neg_left (n d : Int) : quotient (-n) d = -quotient n d := by
  by_cases hn : n = 0
  · simp [quotient, hn]
  · have hsign : 0 < n ↔ ¬ n < 0 := by omega
    by_cases hlt : n < 0 <;> by_cases hd : d < 0 <;> simp [quotient, hsign, hlt, hd]

theorem quotient_neg_right (n d : Int) : quotient n (-d) = -quotient n d := by
  by_cases hd : d = 0
  · simp [quotient, hd]
  · have hsign : 0 < d ↔ ¬ d < 0 := by omega
    by_cases hn : n < 0 <;> by_cases hlt : d < 0 <;> simp [quotient, hsign, hn, hlt]

/-- The quotient goes toward zero. -/
theorem quotient_eq_tdiv (n d : Int) : quotient n d = n.tdiv d := by
  rcases n.eq_nat_or_neg with ⟨m, rfl | rfl⟩ <;> rcases d.eq_nat_or_neg with ⟨k, rfl | rfl⟩ <;>
    simp only [quotient_neg_left, quotient_neg_right, quotient_natCast, Int.neg_tdiv, Int.tdiv_neg,
      Int.ofNat_tdiv]

theorem remainder_eq_tmod (n d : Int) : remainder n d = n.tmod d := by
  rw [remainder, quotient_eq_tdiv, Int.tmod_def, Int.mul_comm]

/-- A quotient of numbers of sixty-four bits is one, unless the least number changes its sign. -/
theorem fits_quotient (hn : Fits n) (hd : d ≠ 0) (hmin : ¬ (n = minValue ∧ d = -1)) :
    Fits (quotient n d) := by
  have hsize : (n.tdiv d).natAbs = n.natAbs / d.natAbs := Int.natAbs_tdiv n d
  rw [quotient_eq_tdiv]
  unfold Fits minValue maxValue at *
  by_cases hone : d.natAbs = 1
  · rcases (show d = 1 ∨ d = -1 by omega) with rfl | rfl
    · rw [Int.tdiv_one]
      exact hn
    · rw [Int.tdiv_neg, Int.tdiv_one]
      omega
  · -- Any other divisor leaves no more than half of the dividend.
    have hhalf : n.natAbs / d.natAbs ≤ n.natAbs / 2 := Nat.div_le_div_left (by omega) (by decide)
    omega

/-- A remainder is no larger than the dividend and has its sign. -/
theorem fits_remainder (hn : Fits n) (d : Int) : Fits (remainder n d) := by
  have hsize : (n.tmod d).natAbs ≤ n.natAbs := Int.natAbs_tmod n d ▸ Nat.mod_le _ _
  rw [remainder_eq_tmod]
  unfold Fits minValue maxValue at *
  rcases Int.le_total 0 n with hsign | hsign
  · have := Int.tmod_nonneg d hsign
    omega
  · have := Int.tmod_nonneg d (Int.neg_nonneg_of_nonpos hsign)
    rw [Int.neg_tmod] at this
    omega

end Word64

/-- A value that is a number of sixty-four bits. -/
def Value.Fits (v : Value) : Prop := ∃ n, v = .number n ∧ Word64.Fits n

namespace Evaluation

/-- An operation gives a result with the property `post`, or it fails with an error of which
    `blame` holds. -/
def Yields {α : Type} (post : α → Prop) (blame : EvalError → Prop) : Except EvalError α → Prop
  | .ok a => post a
  | .error err => blame err

section Yields

variable {α β : Type} {post : α → Prop} {post' : β → Prop} {blame blame' : EvalError → Prop}
  {r : Except EvalError α}

@[simp] theorem yields_ok {a : α} : Yields post blame (.ok a) ↔ post a := Iff.rfl

@[simp] theorem yields_error {err : EvalError} : Yields post blame (.error err) ↔ blame err :=
  Iff.rfl

theorem Yields.map (h : Yields post blame r) {f : α → β} (hf : ∀ a, post a → post' (f a)) :
    Yields post' blame (r.map f) := by
  cases r with
  | ok a => exact hf a h
  | error err => exact h

theorem Yields.and {also : α → Prop} (h : Yields post blame r) (h' : Yields also blame' r) :
    Yields (fun a => post a ∧ also a) blame r := by
  cases r with
  | ok a => exact ⟨h, h'⟩
  | error err => exact h

theorem Yields.mono (h : Yields post blame r) (hb : ∀ err, blame err → blame' err) :
    Yields post blame' r := by
  cases r with
  | ok a => exact h
  | error err => exact hb err h

end Yields

/-! ### Operators between numbers -/

/-- Why an operator that stands at a position gives no number between two numbers: it is a division
    that has none. -/
inductive Undefined (p : Position) (op : ArithmeticOp) : EvalError → Prop
  | divisionByZero : op = .divide ∨ op = .remainder → Undefined p op (.divisionByZero op.text p)
  | overflow : op = .divide ∨ op = .remainder → Undefined p op (.overflow op.text p)

theorem fits_truth (b : Bool) : (truth b).Fits := ⟨_, rfl, Word64.fits_ofBool b⟩

theorem fits_decided {op : LogicalOp} {v w : Value} (h : decided? op v = some w) : w.Fits := by
  cases op <;> simp only [decided?] at h <;> split at h <;> cases h <;> exact fits_truth _

/-- An operator in front of a number always gives one. -/
theorem applyUnary_yields (op : UnaryOp) {v : Value} (hv : v.Fits) (blame : EvalError → Prop) :
    Yields Value.Fits blame (applyUnary (.text op.text) v) := by
  rcases hv with ⟨n, rfl, hn⟩
  unfold applyUnary
  rw [UnaryOp.ofValue?_text]
  cases op with
  | negate => exact ⟨_, rfl, Word64.fits_wrap (-n)⟩
  | invert => exact fits_truth _

theorem checkDivisor_yields (p : Position) {op : ArithmeticOp}
    (hop : op = .divide ∨ op = .remainder) (m n : Int) :
    Yields (fun _ => n ≠ 0 ∧ ¬ (m = Word64.minValue ∧ n = -1)) (Undefined p op)
      (checkDivisor p op m n) := by
  unfold checkDivisor
  by_cases hzero : n = 0
  · rw [if_pos hzero]
    exact .divisionByZero hop
  · rw [if_neg hzero]
    by_cases hmin : m = Word64.minValue ∧ n = -1
    · rw [if_pos hmin]
      exact .overflow hop
    · rw [if_neg hmin]
      exact ⟨hzero, hmin⟩

/-- Between numbers of sixty-four bits an operator gives another one, unless it is a division that
    has no result. -/
theorem combine_yields (p : Position) (op : ArithmeticOp) {m : Int} (hm : Word64.Fits m) (n : Int) :
    Yields Word64.Fits (Undefined p op) (combine p op m n) := by
  cases op with
  | add | subtract | multiply => exact Word64.fits_wrap _
  | less | equal | notEqual => exact Word64.fits_ofBool _
  | divide =>
    exact (checkDivisor_yields p (.inl rfl) m n).map fun _ h => Word64.fits_quotient hm h.1 h.2
  | remainder =>
    exact (checkDivisor_yields p (.inr rfl) m n).map fun _ _ => Word64.fits_remainder hm n

theorem applyBinary_yields (p : Position) (op : ArithmeticOp) {v w : Value} (hv : v.Fits)
    (hw : w.Fits) : Yields Value.Fits (Undefined p op) (applyBinary p (.text op.text) v w) := by
  rcases hv with ⟨m, rfl, hm⟩
  rcases hw with ⟨n, rfl, -⟩
  have hop : BinaryOp.ofValue? (.text op.text) = some (.arithmetic op) :=
    BinaryOp.ofValue?_text (.arithmetic op)
  have happly : applyBinary p (.text op.text) (.number m) (.number n) =
      (combine p op m n).map .number := by rw [applyBinary, hop]
  rw [happly]
  exact (combine_yields p op hm n).map fun k hk => ⟨k, rfl, hk⟩

/-! ### Operators between any values -/

/-- Whatever an operator fails with, it is not that a value is missing. -/
theorem applyUnary_ne_missingOperand (op v : Value) :
    Yields (fun _ => True) (· ≠ .missingOperand) (applyUnary op v) := by
  unfold applyUnary
  split <;> simp

theorem combine_ne_missingOperand (p : Position) (op : ArithmeticOp) (m n : Int) :
    Yields (fun _ => True) (· ≠ .missingOperand) (combine p op m n) := by
  have hdivisor : Yields (fun _ => True) (· ≠ .missingOperand) (checkDivisor p op m n) := by
    unfold checkDivisor
    by_cases hzero : n = 0
    · simp [hzero]
    · by_cases hmin : m = Word64.minValue ∧ n = -1 <;> simp [hzero, hmin]
  cases op with
  | divide | remainder => exact hdivisor.map fun _ _ => trivial
  | _ => trivial

theorem productError_ne_missingOperand (l r : Value) : productError l r ≠ .missingOperand := by
  unfold productError
  split
  · split <;> simp
  · split <;> simp
  · simp

theorem compare_ne_missingOperand (p : Position) (op : ArithmeticOp) (l r : Value) :
    Yields (fun _ => True) (· ≠ .missingOperand) (compare p op l r) := by
  cases op with
  | equal | notEqual => trivial
  | multiply => exact productError_ne_missingOperand l r
  | divide | remainder =>
    by_cases hr : isFalse r = true <;> simp [compare, hr]
  | less | add | subtract => simp [compare]

theorem applyBinary_ne_missingOperand (p : Position) (op l r : Value) :
    Yields (fun _ => True) (· ≠ .missingOperand) (applyBinary p op l r) := by
  unfold applyBinary
  split
  · split
    · exact (combine_ne_missingOperand p _ _ _).map fun _ _ => trivial
    · exact compare_ne_missingOperand p _ _ _
  · simp
  · simp

end Evaluation
end ExprLang

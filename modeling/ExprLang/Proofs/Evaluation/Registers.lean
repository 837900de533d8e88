import ExprLang.Proofs.Evaluation.Range
import ExprLang.Proofs.Evaluation.Refinement

/-! Arithmetic in registers.

    The evaluator computes with integers of any size and cuts the results to sixty-four bits. A
    machine has registers of sixty-four bits instead and never sees anything else. Read as signed
    numbers, the registers go through the same numbers as the evaluator: each operator on integers
    is the operation on registers (`Register.combine_toInt`), so a tree has the same outcome either
    way (`Expr.eval_eq_evalRegister`). -/

namespace ExprLang

/-- Sixty-four bits. -/
abbrev Register := BitVec 64

namespace Register

/-- Truth in a register. -/
def truth (b : Bool) : Register := if b then 1#64 else 0#64

/-- The operation of an operator in front of an operand. -/
def applyUnary : UnaryOp → Register → Register
  | .negate, w => -w
  | .invert, w => truth (w == 0#64)

/-- A machine divides neither by zero nor the least number by minus one. -/
def checkDivisor (p : Position) (op : ArithmeticOp) (l r : Register) : Except EvalError Unit :=
  if r = 0#64 then .error (.divisionByZero op.text p)
  else if l = BitVec.intMin 64 ∧ r = -1#64 then .error (.overflow op.text p)
  else .ok ()

/-- The operation of an operator between two operands. -/
def combine (p : Position) (op : ArithmeticOp) (l r : Register) : Except EvalError Register :=
  match op with
  | .add => .ok (l + r)
  | .subtract => .ok (l - r)
  | .multiply => .ok (l * r)
  | .divide => (checkDivisor p op l r).map fun _ => l.sdiv r
  | .remainder => (checkDivisor p op l r).map fun _ => l.srem r
  | .less => .ok (truth (l.slt r))
  | .equal => .ok (truth (l == r))
  | .notEqual => .ok (truth (l != r))

/-- What a logical operator gives on account of its left operand alone. -/
def decided? : LogicalOp → Register → Option Register
  | .and, l => if l = 0#64 then some (truth false) else none
  | .or, l => if l = 0#64 then none else some (truth true)

/-- The number that a register holds. -/
def value (w : Register) : Value := .number w.toInt

end Register

/-- A tree whose integers are numbers of sixty-four bits. -/
def Expr.OfWords : Expr → Prop
  | .integer _ v => v.Fits
  | .identifier .. => True
  | .conditional _ c t e => c.OfWords ∧ t.OfWords ∧ e.OfWords
  | .unary _ _ e => e.OfWords
  | .binary _ _ l r => l.OfWords ∧ r.OfWords

/-- The value of an expression in a register, by recursion on the tree. -/
def Expr.evalRegister : Expr → Except EvalError Register
  | .integer _ v =>
    match v with
    | .number n => .ok (BitVec.ofInt 64 n)
    | v => .error (.unfitOperand v)
  | .identifier p n => .error (.unbound n p)
  | .conditional _ c t e => do
    let w ← c.evalRegister
    if w = 0#64 then e.evalRegister else t.evalRegister
  | .unary _ op e => do
    let w ← e.evalRegister
    match UnaryOp.ofValue? op with
    | some o => pure (Register.applyUnary o w)
    | none => throw (.unsupportedUnary op)
  | .binary p op l r => do
    let v ← l.evalRegister
    match BinaryOp.ofValue? op with
    | some (.logical o) =>
      match Register.decided? o v with
      | some w => pure w
      | none => do
        let w ← r.evalRegister
        pure (Register.truth (w != 0#64))
    | some (.arithmetic o) => do
      let w ← r.evalRegister
      Register.combine p o v w
    | none => do
      let _ ← r.evalRegister
      throw (.unsupportedBinary op)

/-! ### Registers as signed numbers -/

namespace Register

open Word64 Evaluation

variable (v w : Register)

theorem fits_toInt : Fits w.toInt := by
  have hmin := BitVec.le_toInt w
  have hmax := BitVec.toInt_lt (x := w)
  simp only [Fits, minValue, maxValue]
  omega

theorem toInt_ofInt_of_fits {n : Int} (h : Fits n) : (BitVec.ofInt 64 n).toInt = n := by
  simp only [Fits, minValue, maxValue] at h
  exact BitVec.toInt_ofInt_eq_self (by decide) (by omega) (by omega)

/-- Wrapping is what a register does to a number. -/
theorem wrap_eq_bmod (n : Int) : wrap n = n.bmod 0x10000000000000000 := by
  rw [wrap, Int.bmod_def]
  split <;> omega

theorem wrap_neg : wrap (-w.toInt) = (-w).toInt := by
  rw [wrap_eq_bmod, BitVec.toInt_neg]

theorem wrap_add : wrap (v.toInt + w.toInt) = (v + w).toInt := by
  rw [wrap_eq_bmod, BitVec.toInt_add]

theorem wrap_sub : wrap (v.toInt - w.toInt) = (v - w).toInt := by
  rw [wrap_eq_bmod, BitVec.toInt_sub]

theorem wrap_mul : wrap (v.toInt * w.toInt) = (v * w).toInt := by
  rw [wrap_eq_bmod, BitVec.toInt_mul]

theorem toInt_truth (b : Bool) : (truth b).toInt = ofBool b := by cases b <;> rfl

theorem value_truth (b : Bool) : (truth b).value = Evaluation.truth b := by
  rw [value, toInt_truth, Evaluation.truth]

theorem toInt_eq_zero : w.toInt = 0 ↔ w = 0#64 := BitVec.toInt_inj (y := 0#64)

theorem toInt_eq_minValue : w.toInt = minValue ↔ w = BitVec.intMin 64 :=
  BitVec.toInt_inj (y := BitVec.intMin 64)

theorem toInt_eq_neg_one : w.toInt = -1 ↔ w = -1#64 := BitVec.toInt_inj (y := -1#64)

theorem isFalse_value : Evaluation.isFalse w.value = (w == 0#64) := by
  rw [Bool.eq_iff_iff]
  simpa [Evaluation.isFalse, value] using toInt_eq_zero w

/-- A logical operator decides alike. -/
theorem decided?_value (op : LogicalOp) :
    Evaluation.decided? op w.value = (decided? op w).map value := by
  by_cases hw : w = 0#64 <;> cases op <;>
    simp [Evaluation.decided?, decided?, isFalse_value, hw, value_truth]

theorem applyUnary_value {op : Value} {o : UnaryOp} (h : UnaryOp.ofValue? op = some o) :
    Evaluation.applyUnary op w.value = .ok (applyUnary o w).value := by
  cases o with
  | negate => simp [Evaluation.applyUnary, h, value, applyUnary, wrap_neg]
  | invert => simp [Evaluation.applyUnary, h, applyUnary, value_truth, isFalse_value]

/-- The same divisions are refused. -/
theorem checkDivisor_toInt (p : Position) (op : ArithmeticOp) :
    Evaluation.checkDivisor p op v.toInt w.toInt = checkDivisor p op v w := by
  simp only [Evaluation.checkDivisor, checkDivisor, toInt_eq_zero, toInt_eq_minValue,
    toInt_eq_neg_one]

/-- A division that is not refused does not overflow. -/
theorem not_overflow_of_checkDivisor {p : Position} {op : ArithmeticOp} {u : Unit}
    (h : checkDivisor p op v w = .ok u) : ¬ (v = BitVec.intMin 64 ∧ w = -1#64) := by
  intro hmin
  have hw : w ≠ 0#64 := by rw [hmin.2]; decide
  rw [checkDivisor, if_neg hw, if_pos hmin] at h
  cases h

theorem toInt_sdiv (h : ¬ (v = BitVec.intMin 64 ∧ w = -1#64)) :
    (v.sdiv w).toInt = quotient v.toInt w.toInt := by
  rw [quotient_eq_tdiv]
  exact BitVec.toInt_sdiv_of_ne_or_ne v w (Decidable.not_and_iff_not_or_not.mp h)

theorem toInt_srem : (v.srem w).toInt = remainder v.toInt w.toInt := by
  rw [remainder_eq_tmod, BitVec.toInt_srem]

/-- An operator on numbers is the operation on registers. -/
theorem combine_toInt (p : Position) (op : ArithmeticOp) :
    Evaluation.combine p op v.toInt w.toInt = (combine p op v w).map BitVec.toInt := by
  cases op with
  | add => exact congrArg Except.ok (wrap_add v w)
  | subtract => exact congrArg Except.ok (wrap_sub v w)
  | multiply => exact congrArg Except.ok (wrap_mul v w)
  | divide =>
    rw [Evaluation.combine, combine, checkDivisor_toInt]
    cases hcheck : checkDivisor p .divide v w with
    | error err => rfl
    | ok _ =>
      have hmin := not_overflow_of_checkDivisor v w hcheck
      exact congrArg Except.ok (toInt_sdiv v w hmin).symm
  | remainder =>
    rw [Evaluation.combine, combine, checkDivisor_toInt]
    cases checkDivisor p .remainder v w with
    | error err => rfl
    | ok _ => exact congrArg Except.ok (toInt_srem v w).symm
  | less =>
    have hless : decide (v.toInt < w.toInt) = v.slt w := by
      rw [Bool.eq_iff_iff, decide_eq_true_iff, BitVec.slt_iff_toInt_lt]
    simp only [Evaluation.combine, combine, Except.map, toInt_truth, hless]
  | equal | notEqual =>
    have hequal : (v.toInt == w.toInt) = (v == w) := by
      rw [Bool.eq_iff_iff, beq_iff_eq, beq_iff_eq, BitVec.toInt_inj]
    simp only [Evaluation.combine, combine, Except.map, toInt_truth, bne, hequal]

theorem applyBinary_value {op : Value} {o : ArithmeticOp}
    (h : BinaryOp.ofValue? op = some (.arithmetic o)) (p : Position) :
    Evaluation.applyBinary p op v.value w.value = (combine p o v w).map value := by
  simp only [Evaluation.applyBinary, h, value, combine_toInt]
  cases combine p o v w <;> rfl

end Register

/-! ### Trees -/

namespace Expr

open Register

/-- A tree of numbers of sixty-four bits has the same outcome in registers: the same number, or the
    same error. -/
theorem eval_eq_evalRegister {e : Expr} (h : e.OfWords) :
    e.eval = e.evalRegister.map Register.value := by
  induction e with
  | integer p v =>
    obtain ⟨n, rfl, hn⟩ := h
    exact congrArg (fun n => Except.ok (Value.number n)) (toInt_ofInt_of_fits hn).symm
  | identifier p n => rfl
  | conditional p c t e ihc iht ihe =>
    rw [eval, evalRegister, ihc h.1]
    cases c.evalRegister with
    | error err => rfl
    | ok w =>
      by_cases hw : w = 0#64
      · simpa [Except.map, bind, Except.bind, isFalse_value, hw] using ihe h.2.2
      · simpa [Except.map, bind, Except.bind, isFalse_value, hw] using iht h.2.1
  | unary p op e ih =>
    rw [eval, evalRegister, ih h]
    cases e.evalRegister with
    | error err => rfl
    | ok w =>
      show Evaluation.applyUnary op w.value = Except.map _ (match UnaryOp.ofValue? op with
        | some o => .ok (applyUnary o w)
        | none => .error (.unsupportedUnary op))
      cases hop : UnaryOp.ofValue? op with
      | none => simp only [Evaluation.applyUnary, hop, Except.map]
      | some o => exact applyUnary_value w hop
  | binary p op l r ihl ihr =>
    rw [eval, evalRegister, ihl h.1, ihr h.2, Evaluation.logicalOp?]
    cases l.evalRegister with
    | error err => rfl
    | ok v =>
      simp only [Except.map, bind, Except.bind]
      cases hop : BinaryOp.ofValue? op with
      | none =>
        cases r.evalRegister with
        | error err => rfl
        | ok w => simp only [Evaluation.applyBinary, hop]; rfl
      | some o =>
        cases o with
        | arithmetic o =>
          cases r.evalRegister with
          | error err => rfl
          | ok w => exact applyBinary_value v w hop p
        | logical o =>
          simp only [decided?_value]
          cases decided? o v with
          | some w => rfl
          | none =>
            cases r.evalRegister with
            | error err => rfl
            | ok w => simp [isFalse_value, value_truth, bne, pure, Except.pure]

end Expr

namespace Evaluation

open Word64

theorem evaluate_eq_evalRegister {e : Expr} (h : e.OfWords) :
    evaluate e = e.evalRegister.map Register.value := by
  rw [evaluate, Machine.start, Machine.run_eval, Expr.eval_eq_evalRegister h]
  cases e.evalRegister with
  | error err => rfl
  | ok w => simp only [Except.map, Except.bind, Machine.run_nil]

theorem exists_register {e : Expr} {n : Int} (h : e.OfWords) (hn : evaluate e = .ok (.number n)) :
    ∃ w : Register, e.evalRegister = .ok w ∧ w.toInt = n := by
  rw [evaluate_eq_evalRegister h] at hn
  cases hw : e.evalRegister with
  | error err =>
    rw [hw] at hn
    cases hn
  | ok w =>
    rw [hw] at hn
    cases hn
    exact ⟨w, rfl, rfl⟩

/-- An operator between two trees combines their numbers, which have sixty-four bits. -/
theorem evaluate_arithmetic {l r : Expr} {n d : Int} (hl : l.OfWords) (hr : r.OfWords)
    (hn : evaluate l = .ok (.number n)) (hd : evaluate r = .ok (.number d)) (p : Position)
    (op : ArithmeticOp) :
    Fits n ∧ evaluate (.binary p (.text op.text) l r) = (combine p op n d).map .number := by
  obtain ⟨v, hv, rfl⟩ := exists_register hl hn
  obtain ⟨w, hw, rfl⟩ := exists_register hr hd
  refine ⟨Register.fits_toInt v, ?_⟩
  have hop : BinaryOp.ofValue? (.text op.text) = some (.arithmetic op) :=
    BinaryOp.ofValue?_text (.arithmetic op)
  have hnode : (Expr.binary p (.text op.text) l r).evalRegister = Register.combine p op v w := by
    simp only [Expr.evalRegister, hv, hw, hop, bind, Except.bind]
  have hwords : (Expr.binary p (.text op.text) l r).OfWords := ⟨hl, hr⟩
  rw [evaluate_eq_evalRegister hwords, hnode, Register.combine_toInt]
  cases Register.combine p op v w <;> rfl

end Evaluation

/-- A dividend comes apart into a quotient and a remainder: the remainder is smaller than the
    divisor and has the sign of the dividend, and both are numbers of sixty-four bits. -/
structure Word64.Division (n d q r : Int) : Prop where
  eq_add : n = q * d + r
  natAbs_lt : r.natAbs < d.natAbs
  sign_eq : r = 0 ∨ r.sign = n.sign
  fits_quotient : Fits q
  fits_remainder : Fits r

theorem Word64.division {n d : Int} (hn : Fits n) (hd : d ≠ 0)
    (hmin : ¬ (n = minValue ∧ d = -1)) : Division n d (quotient n d) (remainder n d) where
  eq_add := by rw [remainder]; omega
  natAbs_lt := by
    rw [remainder_eq_tmod, Int.natAbs_tmod]
    exact Nat.mod_lt _ (Int.natAbs_pos.mpr hd)
  sign_eq := by
    rw [remainder_eq_tmod, Int.sign_tmod]
    by_cases hdvd : d ∣ n
    · exact .inl (Int.tmod_eq_zero_of_dvd hdvd)
    · exact .inr (if_neg hdvd)
  fits_quotient := Word64.fits_quotient hn hd hmin
  fits_remainder := Word64.fits_remainder hn d

open Evaluation Word64

/-- Evaluation is arithmetic in registers of sixty-four bits. A division by zero and that of the
    least number by minus one are errors, and every other one takes the dividend apart. -/
theorem evaluate_registers :
    (∀ e : Expr, e.OfWords → evaluate e = e.evalRegister.map Register.value) ∧
    ∀ (p : Position) (l r : Expr) (n d : Int), l.OfWords → r.OfWords →
      evaluate l = .ok (.number n) → evaluate r = .ok (.number d) →
      (d = 0 →
        evaluate (.binary p (.text "/") l r) = .error (.divisionByZero "/" p) ∧
        evaluate (.binary p (.text "%") l r) = .error (.divisionByZero "%" p)) ∧
      (n = minValue → d = -1 →
        evaluate (.binary p (.text "/") l r) = .error (.overflow "/" p) ∧
        evaluate (.binary p (.text "%") l r) = .error (.overflow "%" p)) ∧
      (d ≠ 0 → ¬ (n = minValue ∧ d = -1) → ∃ q m, Division n d q m ∧
        evaluate (.binary p (.text "/") l r) = .ok (.number q) ∧
        evaluate (.binary p (.text "%") l r) = .ok (.number m)) := by
  refine ⟨fun e he => evaluate_eq_evalRegister he, ?_⟩
  intro p l r n d hl hr hn hd
  obtain ⟨hfits, hquotient⟩ := evaluate_arithmetic hl hr hn hd p .divide
  obtain ⟨-, hremainder⟩ := evaluate_arithmetic hl hr hn hd p .remainder
  simp only [ArithmeticOp.text, combine] at hquotient hremainder
  rw [hquotient, hremainder]
  refine ⟨?_, ?_, ?_⟩
  · rintro rfl
    exact ⟨rfl, rfl⟩
  · rintro rfl rfl
    exact ⟨rfl, rfl⟩
  · intro hzero hmin
    refine ⟨quotient n d, remainder n d, division hfits hzero hmin, ?_⟩
    simp [checkDivisor, hzero, hmin, Except.map]

/-- Two below `-9223372036854775807` is the greatest number, and `-7` comes apart by `2`. -/
theorem evaluate_registers_negative :
    evaluate (.binary ⟨1, 22⟩ (.text "-") (.integer ⟨1, 1⟩ (.number (-9223372036854775807)))
      (.integer ⟨1, 24⟩ (.number 2))) = .ok (.number 9223372036854775807) ∧
    ∃ q m, Division (-7) 2 q m ∧
      evaluate (.binary ⟨1, 4⟩ (.text "/") (.integer ⟨1, 1⟩ (.number (-7)))
        (.integer ⟨1, 6⟩ (.number 2))) = .ok (.number q) ∧
      evaluate (.binary ⟨1, 4⟩ (.text "%") (.integer ⟨1, 1⟩ (.number (-7)))
        (.integer ⟨1, 6⟩ (.number 2))) = .ok (.number m) := by
  have hwords (p : Position) {n : Int} (hn : Fits n) : (Expr.integer p (.number n)).OfWords :=
    ⟨n, rfl, hn⟩
  have hvalue (p : Position) (n : Int) :
      evaluate (.integer p (.number n)) = .ok (.number n) := by
    rw [evaluate, Machine.start, Machine.run_eval]
    simp only [Expr.eval, Except.bind, Machine.run_nil]
  obtain ⟨htrees, hdivisions⟩ := evaluate_registers
  constructor
  · have hdifference : (Expr.binary ⟨1, 22⟩ (.text "-")
        (.integer ⟨1, 1⟩ (.number (-9223372036854775807)))
        (.integer ⟨1, 24⟩ (.number 2))).OfWords :=
      ⟨hwords _ (by decide), hwords _ (by decide)⟩
    rw [htrees _ hdifference]
    rfl
  · exact (hdivisions ⟨1, 4⟩ _ _ (-7) 2 (hwords _ (by decide)) (hwords _ (by decide))
      (hvalue _ _) (hvalue _ _)).2.2 (by decide) (by decide)

end ExprLang

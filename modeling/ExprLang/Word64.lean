/-! Signed numbers of sixty-four bits.

    Values are integers; `wrap` takes an integer to the number of sixty-four bits that is congruent
    to it, which is how sums, differences and products overflow. Quotients go toward zero, so a
    remainder has the sign of the dividend. -/

namespace ExprLang.Word64

/-- The least number. -/
def minValue : Int := -0x8000000000000000

/-- The greatest number. -/
def maxValue : Int := 0x7fffffffffffffff

/-- The number of sixty-four bits that is congruent to `v`. -/
def wrap (v : Int) : Int :=
  (v + 0x8000000000000000) % 0x10000000000000000 - 0x8000000000000000

/-- The quotient toward zero, for a divisor other than zero. -/
def quotient (n d : Int) : Int :=
  let q : Int := (n.natAbs / d.natAbs : Nat)
  if (n < 0) ≠ (d < 0) then -q else q

/-- What the quotient leaves of the dividend. -/
def remainder (n d : Int) : Int := n - quotient n d * d

/-- Truth as a number. -/
def ofBool (b : Bool) : Int := if b then 1 else 0

theorem minValue_le_wrap (v : Int) : minValue ≤ wrap v := by
  unfold minValue wrap
  omega

theorem wrap_le_maxValue (v : Int) : wrap v ≤ maxValue := by
  unfold maxValue wrap
  omega

/-- A number that fits stays as it is. -/
theorem wrap_eq_self {v : Int} (hmin : minValue ≤ v) (hmax : v ≤ maxValue) : wrap v = v := by
  unfold minValue at hmin
  unfold maxValue at hmax
  unfold wrap
  omega

end ExprLang.Word64

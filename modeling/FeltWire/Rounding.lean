import FeltWire.Power

/-!
# Rounding a quotient

The one rounding rule of the library: to the nearest integer, and from halfway
between two integers to the even one.

## Main definitions

* `divHalfEven n d`: the integer nearest to `n / d`

## Main results

* `divHalfEven_mul`: an exact quotient is not changed
* `abs_divHalfEven_sub_le`: the result is within half a unit of the quotient
* `natAbs_divHalfEven_le`: a bound on the quotient that is a whole number also
  bounds the result
-/

namespace FeltWire

/-- The integer nearest to `n / d` for a positive `d`; a half goes to the even
neighbour. The remainder is compared with what it lacks to `d`, and so no number
in between exceeds `d`. -/
def divHalfEven (n d : Int) : Int :=
  let quotient := n / d
  let remainder := n % d
  let rest := d - remainder
  if rest < remainder ∨ (remainder = rest ∧ quotient % 2 ≠ 0) then quotient + 1 else quotient

/-- An exact quotient is its own rounding, whatever the divisor `d`. -/
@[simp] theorem divHalfEven_mul (q : Int) {d : Int} (h : 0 < d) : divHalfEven (q * d) d = q := by
  have quotient : q * d / d = q := Int.mul_ediv_cancel q (by omega)
  have remainder : q * d % d = 0 := Int.mul_emod_left q d
  simp only [divHalfEven, quotient, remainder]
  split <;> omega

/-- The rounding of `n / d` is at most half a unit away from it. -/
theorem abs_divHalfEven_sub_le (n : Int) {d : Int} (h : 0 < d) :
    2 * (n - divHalfEven n d * d) ≤ d ∧ 2 * (divHalfEven n d * d - n) ≤ d := by
  have split := Int.mul_ediv_add_emod n d
  have low := Int.emod_nonneg n (show d ≠ 0 by omega)
  have high := Int.emod_lt_of_pos n h
  have commuted : n / d * d = d * (n / d) := Int.mul_comm ..
  simp only [divHalfEven]
  split
  · rw [Int.add_mul]
    omega
  · omega

/-- A quotient of at most `b` is rounded to at most `b`. -/
theorem natAbs_divHalfEven_le {n d : Int} {b : Nat} (h : 0 < d) (bound : n.natAbs ≤ b * d) :
    (divHalfEven n d).natAbs ≤ b := by
  have near := abs_divHalfEven_sub_le n h
  generalize divHalfEven n d = q at near ⊢
  -- A greater result would be a whole unit further away from zero than the bound.
  refine Nat.not_lt.1 fun large => ?_
  have far : ((b : Int) + 1) * d ≤ q.natAbs * d :=
    Int.mul_le_mul_of_nonneg_right (by omega) (Int.le_of_lt h)
  rw [Int.add_mul, Int.one_mul] at far
  rcases Int.natAbs_eq q with sign | sign
  · rw [← sign] at far
    omega
  · rw [sign, Int.neg_mul] at near
    omega

end FeltWire

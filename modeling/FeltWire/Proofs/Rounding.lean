import FeltWire.Fixed.Arithmetic
import Mathlib.Algebra.Order.Field.Basic
import Mathlib.Algebra.Order.Field.Rat
import Mathlib.Algebra.Order.Ring.Abs
import Mathlib.Algebra.Ring.Int.Parity
import Mathlib.Tactic.FieldSimp
import Mathlib.Tactic.Linarith

/-!
# The nearest integer

The integer nearest to a rational number is one that no other integer is nearer
than, and of two that are equally near it is the even one. There is exactly one,
and rounding a quotient finds it for either sign. It is found within 128 bits:
the remainder is compared with what it lacks to the divisor, so that nothing is
doubled, and a quotient that is rounded up has a divisor of two or more.

## Main definitions

* `IsNearestEven`: the integer nearest to a rational number
* `IsWide`: an integer of 128 bits
* `divHalfEvenWide?`: the rounding of a quotient, each step of which has to stay
  in 128 bits

## Main results

* `isNearestEven_iff`: nearest means at most half a unit away, and even if it is
  half a unit
* `IsNearestEven.unique`, `existsUnique_isNearestEven`: there is exactly one
  nearest integer
* `isNearestEven_div_iff`: the rounded quotient is the nearest integer
* `divHalfEven_nonneg`, `divHalfEven_nonpos`, `le_natAbs_divHalfEven`: rounding
  keeps signs and lower bounds
* `divHalfEvenWide?_eq`: rounding a quotient of integers of 128 bits never
  leaves them
-/

namespace FeltWire

/-- **The integer nearest to a rational number.** No integer is nearer to `q`
than `r`, and if another one is as near, `r` is the even one of the two. -/
structure IsNearestEven (q : ℚ) (r : Int) : Prop where
  nearest : ∀ k : Int, |q - r| ≤ |q - k|
  even : ∀ k : Int, k ≠ r → |q - k| = |q - r| → Even r

namespace IsNearestEven

variable {q : ℚ} {r : Int}

/-- Two integers are at least one apart, and so are their distances from `q`
together. -/
theorem one_le_add_of_ne {k : Int} (other : k ≠ r) : 1 ≤ |q - k| + |q - r| := by
  have apart : (1 : ℚ) ≤ |(k : ℚ) - r| := by
    have whole : 1 ≤ |k - r| := Int.one_le_abs (sub_ne_zero.2 other)
    exact_mod_cast whole
  calc (1 : ℚ) ≤ |(k : ℚ) - r| := apart
    _ ≤ |(k : ℚ) - q| + |q - r| := abs_sub_le ..
    _ = |q - k| + |q - r| := by rw [abs_sub_comm]

/-- The nearest integer is at most half a unit away from `q`, since both its
neighbours are no nearer. -/
theorem le_half (h : IsNearestEven q r) : |q - r| ≤ 1 / 2 := by
  -- the square of `q` cancels
  have above := sq_le_sq.2 (h.nearest (r + 1))
  have below := sq_le_sq.2 (h.nearest (r - 1))
  push_cast at above below
  rw [abs_le]
  constructor <;> linarith

/-- The nearest integer is even if it is half a unit away, since one of its
neighbours is as near and `h.even` applies. -/
theorem even_of_eq_half (h : IsNearestEven q r) (tie : |q - r| = 1 / 2) : Even r := by
  rcases eq_or_eq_neg_of_abs_eq tie with above | below
  · apply h.even (r + 1) (by omega)
    have distance : q - (r + 1 : Int) = -(1 / 2) := by
      push_cast
      linarith
    rw [distance, tie, abs_neg, abs_of_pos (by norm_num)]
  · apply h.even (r - 1) (by omega)
    have distance : q - (r - 1 : Int) = 1 / 2 := by
      push_cast
      linarith
    rw [distance, tie, abs_of_pos (by norm_num)]

/-- Conversely, what is at most half a unit away is nearest, by
`one_le_add_of_ne`. -/
theorem of_le_half (half : |q - r| ≤ 1 / 2) (tie : |q - r| = 1 / 2 → Even r) :
    IsNearestEven q r where
  nearest k := by
    by_cases same : k = r
    · rw [same]
    · have apart := one_le_add_of_ne (q := q) same
      linarith
  even k other equal := by
    have apart := one_le_add_of_ne (q := q) other
    exact tie (by linarith)

end IsNearestEven

/-- **Nearest means at most half a unit away**, and even if it is half a unit:
`IsNearestEven` is the conjunction of the two. -/
theorem isNearestEven_iff {q : ℚ} {r : Int} :
    IsNearestEven q r ↔ |q - r| ≤ 1 / 2 ∧ (|q - r| = 1 / 2 → Even r) := by
  constructor
  · intro h
    exact ⟨h.le_half, h.even_of_eq_half⟩
  · rintro ⟨half, tie⟩
    exact .of_le_half half tie

/-- **There is one such integer**: two would be neighbours, and both even by
`IsNearestEven.even_of_eq_half`. -/
theorem IsNearestEven.unique {q : ℚ} {r r' : Int} (h : IsNearestEven q r)
    (h' : IsNearestEven q r') : r = r' := by
  by_contra other
  have equal : |q - r| = |q - r'| := le_antisymm (h.nearest r') (h'.nearest r)
  obtain ⟨m, hm⟩ := h.even r' (Ne.symm other) equal.symm
  obtain ⟨n, hn⟩ := h'.even r other equal
  have close : |(r : ℚ) - r'| ≤ 1 :=
    calc |(r : ℚ) - r'| ≤ |(r : ℚ) - q| + |q - r'| := abs_sub_le ..
      _ = |q - r| + |q - r'| := by rw [abs_sub_comm]
      _ ≤ 1 := by linarith [h.le_half, h'.le_half]
  have close' : |r - r'| ≤ 1 := by exact_mod_cast close
  rw [abs_le] at close'
  omega

/-- Halfway between two integers, `divHalfEven` takes the even one. -/
theorem even_divHalfEven {n d : Int} (h : 0 < d)
    (tie : 2 * (n - divHalfEven n d * d) = d ∨ 2 * (divHalfEven n d * d - n) = d) :
    Even (divHalfEven n d) := by
  have split := Int.mul_ediv_add_emod n d
  have low := Int.emod_nonneg n h.ne'
  have high := Int.emod_lt_of_pos n h
  have commuted : n / d * d = d * (n / d) := Int.mul_comm ..
  rw [Int.even_iff]
  simp only [divHalfEven] at tie ⊢
  -- at a tie only an odd quotient is rounded up
  by_cases up : d - n % d < n % d ∨ (n % d = d - n % d ∧ n / d % 2 ≠ 0)
  · rw [if_pos up, Int.add_mul] at tie
    rw [if_pos up]
    omega
  · rw [if_neg up] at tie ⊢
    omega

/-- The distance of an integer `r` from a quotient, in parts of the divisor
`d`. -/
theorem abs_div_sub (n r : Int) {d : Int} (h : 0 < d) :
    |(n / d - r : ℚ)| = (|n - r * d| : Int) / d := by
  have positive : (0 : ℚ) < d := Int.cast_pos.2 h
  have whole : (n / d - r : ℚ) = (n - r * d : Int) / d := by
    push_cast
    field_simp
  rw [whole, abs_div, abs_of_pos positive, Int.cast_abs]

/-- **The rounded quotient is the nearest integer**: `divHalfEven` meets
`IsNearestEven`. -/
theorem isNearestEven_divHalfEven (n : Int) {d : Int} (h : 0 < d) :
    IsNearestEven (n / d) (divHalfEven n d) := by
  have positive : (0 : ℚ) < d := Int.cast_pos.2 h
  have near := abs_divHalfEven_sub_le n h
  refine isNearestEven_iff.2 ⟨?_, ?_⟩
  · have small : |n - divHalfEven n d * d| * 2 ≤ d := by
      rcases abs_cases (n - divHalfEven n d * d) with ⟨size, -⟩ | ⟨size, -⟩ <;> omega
    rw [abs_div_sub n _ h, div_le_div_iff₀ positive two_pos, one_mul]
    exact_mod_cast small
  · intro tie
    rw [abs_div_sub n _ h, div_eq_div_iff positive.ne' two_ne_zero, one_mul] at tie
    have half : |n - divHalfEven n d * d| * 2 = d := by exact_mod_cast tie
    apply even_divHalfEven h
    rcases abs_cases (n - divHalfEven n d * d) with ⟨size, -⟩ | ⟨size, -⟩ <;> omega

/-- The nearest integer to a quotient is the rounded one, and no other is
`IsNearestEven`. -/
theorem isNearestEven_div_iff {n d r : Int} (h : 0 < d) :
    IsNearestEven (n / d) r ↔ divHalfEven n d = r := by
  constructor
  · exact (isNearestEven_divHalfEven n h).unique
  · rintro rfl
    exact isNearestEven_divHalfEven n h

/-- Every rational number `q` has exactly one nearest integer. -/
theorem existsUnique_isNearestEven (q : ℚ) : ∃! r, IsNearestEven q r := by
  have near := isNearestEven_divHalfEven q.num (Int.natCast_pos.2 q.den_pos)
  rw [Int.cast_natCast, Rat.num_div_den] at near
  exact ⟨_, near, fun r other => other.unique near⟩

/-! ## Signs and bounds -/

/-- A quotient that is not negative is not rounded below zero by
`divHalfEven`. -/
theorem divHalfEven_nonneg {n d : Int} (h : 0 < d) (sign : 0 ≤ n) : 0 ≤ divHalfEven n d := by
  have near := abs_divHalfEven_sub_le n h
  refine Int.not_lt.1 fun negative => ?_
  have far : divHalfEven n d * d ≤ -1 * d :=
    Int.mul_le_mul_of_nonneg_right (by omega) (Int.le_of_lt h)
  omega

/-- A quotient that is not positive is not rounded above zero by
`divHalfEven`. -/
theorem divHalfEven_nonpos {n d : Int} (h : 0 < d) (sign : n ≤ 0) : divHalfEven n d ≤ 0 := by
  have near := abs_divHalfEven_sub_le n h
  refine Int.not_lt.1 fun positive => ?_
  have far : 1 * d ≤ divHalfEven n d * d :=
    Int.mul_le_mul_of_nonneg_right (by omega) (Int.le_of_lt h)
  omega

/-- A quotient that is `b` or more away from zero is rounded to such an
integer. -/
theorem le_natAbs_divHalfEven {n d : Int} {b : Nat} (h : 0 < d) (bound : b * d ≤ n.natAbs) :
    b ≤ (divHalfEven n d).natAbs := by
  have near := abs_divHalfEven_sub_le n h
  refine Nat.not_lt.1 fun small => ?_
  have close : (divHalfEven n d).natAbs * d ≤ ((b : Int) - 1) * d :=
    Int.mul_le_mul_of_nonneg_right (by omega) (Int.le_of_lt h)
  rw [Int.sub_mul, Int.one_mul] at close
  rcases Int.le_total 0 n with sign | sign
  · rw [Int.natAbs_of_nonneg (divHalfEven_nonneg h sign)] at close
    omega
  · rw [Int.ofNat_natAbs_of_nonpos (divHalfEven_nonpos h sign), Int.neg_mul] at close
    omega

/-! ## In 128 bits -/

/-- **An integer of 128 bits**, signed. `wide?` is its test. -/
def IsWide (v : Int) : Prop := -2 ^ 127 ≤ v ∧ v < 2 ^ 127

theorem wide?_of_isWide {v : Int} (h : IsWide v) : Fixed.wide? v = some v := if_pos h

theorem wide?_of_not_isWide {v : Int} (h : ¬ IsWide v) : Fixed.wide? v = none := if_neg h

/-- **The rounding of a quotient in 128 bits**, step by step as in
`divHalfEven`. It has no result if a step divides by zero or leaves them. -/
def divHalfEvenWide? (n d : Int) : Option Int := do
  guard (d ≠ 0)
  let quotient ← Fixed.wide? (n / d)
  let remainder ← Fixed.wide? (n % d)
  let rest ← Fixed.wide? (d - remainder)
  if rest < remainder ∨ (remainder = rest ∧ quotient % 2 ≠ 0) then Fixed.wide? (quotient + 1)
  else some quotient

/-- A quotient by `c` or more is below what `b * c` bounds. -/
theorem ediv_lt_of_le {n d c b : Int} (h : 0 < d) (le : c ≤ d) (positive : 0 ≤ b) (lt : n < b * c) :
    n / d < b := by
  apply Int.ediv_lt_of_lt_mul h
  calc n < b * c := lt
    _ ≤ b * d := Int.mul_le_mul_of_nonneg_left le positive

/-- **Rounding a quotient stays in 128 bits**: for dividends and divisors that
are `IsWide`, `divHalfEvenWide?` is `divHalfEven`. Only a divisor of two or more
leaves a remainder that is rounded up. -/
theorem divHalfEvenWide?_eq {n d : Int} (hn : IsWide n) (h : 0 < d) (hd : IsWide d) :
    divHalfEvenWide? n d = some (divHalfEven n d) := by
  obtain ⟨least, greatest⟩ := hn
  have low := Int.emod_nonneg n h.ne'
  have high := Int.emod_lt_of_pos n h
  have quotient : IsWide (n / d) := by
    constructor
    · apply Int.le_ediv_of_mul_le h
      omega
    · exact ediv_lt_of_le h (c := 1) h (by decide) (by omega)
  have remainder : IsWide (n % d) := by
    unfold IsWide at *
    omega
  have rest : IsWide (d - n % d) := by
    unfold IsWide at *
    omega
  have nonzero : (guard (d ≠ 0) : Option Unit) = some () := if_pos h.ne'
  simp only [divHalfEvenWide?, divHalfEven, nonzero, wide?_of_isWide quotient,
    wide?_of_isWide remainder, wide?_of_isWide rest, Option.bind_eq_bind, Option.bind_some]
  split
  · next up =>
    have half : n / d < 2 ^ 126 := ediv_lt_of_le h (c := 2) (by omega) (by decide) (by omega)
    apply wide?_of_isWide
    unfold IsWide at *
    omega
  · rfl

end FeltWire

import FeltWire.Proofs.Binary64.Nearest
import Mathlib.Tactic.LinearCombination
import Mathlib.Tactic.Positivity
import Mathlib.Tactic.Ring

/-!
# The nearest double

The double nearest to a rational number is one that no other double is nearer
than, and of two that are equally near it is the one with the even significand.
Rounding a quotient finds it, for either sign, among the least doubles, too.

## Why the grid is enough

A quotient is rounded on a grid: the multiples of the unit in the last place
that its leading one has. All doubles from the leading one on are such
multiples, and so none of them is nearer than the multiple that is nearest. The
doubles below are not, but the leading one, which is a multiple, is nearer than
they are. A quotient that is too small for a leading one is rounded on the grid
of the least doubles, which all doubles are on.

## Main definitions

* `Binary64.value`: the rational number that a finite double is
* `Binary64.IsNearest`: the double nearest to a rational number

## Main results

* `value_eq`: the value is a whole number of units
* `Rounds.nearest_multiple`: no double is nearer than the multiple
* `isNearest_nearest`, `value_of_isNearest`: the rounded quotient is nearest, if
  it is finite, and no double of another value is
* `isNearest_iff_of_zero`: zero is nearest up to half the least double
-/

namespace FeltWire

/-! ## Signs -/

/-- The number `v`, with its sign turned if it is to be `negative`. -/
def signed {α : Type} [Neg α] (negative : Bool) (v : α) : α := if negative then -v else v

theorem cast_signed (negative : Bool) (v : Int) :
    ((signed negative v : Int) : ℚ) = signed negative (v : ℚ) := by
  cases negative <;> simp [signed]

theorem natAbs_signed (negative : Bool) (v : Int) : (signed negative v).natAbs = v.natAbs := by
  cases negative <;> simp [signed]

theorem abs_signed (negative : Bool) (q : ℚ) : |signed negative q| = |q| := by
  cases negative <;> simp [signed]

theorem signed_mul (negative : Bool) (a b : ℚ) :
    signed negative (a * b) = signed negative a * b := by
  cases negative <;> simp [signed]

theorem signed_signed_sub (negative : Bool) (a b : ℚ) :
    signed negative (signed negative a - b) = a - signed negative b := by
  cases negative <;> simp [signed, add_comm]

theorem signed_natAbs (v : Int) : signed (v < 0) (v.natAbs : ℚ) = v := by
  rw [Nat.cast_natAbs, Int.cast_abs]
  by_cases negative : v < 0
  · rw [signed, if_pos (decide_eq_true negative), abs_of_neg (Int.cast_lt_zero.2 negative), neg_neg]
  · rw [signed, if_neg (by simpa using negative),
      abs_of_nonneg (Int.cast_nonneg (Int.not_lt.1 negative))]

/-- The distance to a number of the same sign as `q` is that of the absolute
values. -/
theorem abs_sub_signed (q v : ℚ) : |q - signed (q < 0) v| = |(|q| - v)| := by
  by_cases negative : q < 0
  · rw [signed, if_pos (decide_eq_true negative), abs_of_neg negative, sub_neg_eq_add, ← neg_add',
      abs_neg]
  · rw [signed, if_neg (by simpa using negative), abs_of_nonneg (not_lt.1 negative)]

namespace Binary64

variable {x y z : Binary64} {negative : Bool} {num den units e s : Nat} {t k : Int} {q : ℚ}

/-! ## Values -/

/-- **The value of a finite number**: its sign, times one and its `fraction`,
times a power of two. With the least exponent, the one is missing. -/
def value (x : Binary64) : ℚ :=
  let sign : ℚ := if x.isNegative then -1 else 1
  let fraction : ℚ := x.fraction / 2 ^ 52
  if x.exponentField = 0 then sign * fraction * 2 ^ (-1022 : ℤ)
  else sign * (1 + fraction) * 2 ^ (x.exponentField - 1023 : ℤ)

/-- A unit in the last place of a fraction, in terms of `unitsPerOne`. -/
theorem zpow_div (e : Nat) : (2 : ℚ) ^ (e - 1022 : ℤ) / 2 ^ 52 = 2 ^ e / (unitsPerOne : Int) := by
  obtain ⟨k, hk, units⟩ := exists_unitsPerOne
  have two : (2 : ℚ) ≠ 0 := two_ne_zero
  rw [units]
  -- or else the power in `unitsPerOne` is evaluated
  clear units
  rw [show (e - 1022 : ℤ) = 52 + e - k by omega, zpow_sub₀ two, zpow_add₀ two, zpow_natCast,
    zpow_natCast, zpow_ofNat]
  push_cast
  field_simp

/-- **The value is a whole number of units**, which `scaled` counts. -/
theorem value_eq (x : Binary64) : x.value = x.scaled / (unitsPerOne : Int) := by
  have sign : (x.scaled : ℚ) = (if x.isNegative then -1 else 1) * x.magnitude := by
    unfold scaled
    split <;> push_cast <;> ring
  rw [sign, value, mul_div_assoc]
  generalize (if x.isNegative then -1 else 1 : ℚ) = sign
  unfold magnitude significand Binary64.exponent
  by_cases least : x.exponentField = 0
  · have unit := zpow_div 0
    rw [Nat.cast_zero, zero_sub, pow_zero] at unit
    rw [if_pos least, if_pos least, least]
    generalize (2 : ℚ) ^ (-1022 : ℤ) = power at unit ⊢
    push_cast
    linear_combination sign * x.fraction * unit
  · obtain ⟨e, he⟩ : ∃ e, x.exponentField = e + 1 := Nat.exists_eq_succ_of_ne_zero least
    have unit := zpow_div e
    have biased : (e + 1 - 1023 : ℤ) = e - 1022 := by omega
    rw [if_neg least, if_neg least, he]
    push_cast
    rw [biased]
    generalize (2 : ℚ) ^ (e - 1022 : ℤ) = power at unit ⊢
    linear_combination sign * (2 ^ 52 + x.fraction) * unit

theorem cast_unitsPerOne_pos : (0 : ℚ) < unitsPerOne := Nat.cast_pos.2 unitsPerOne_pos

theorem abs_value (x : Binary64) : |x.value| = x.magnitude / unitsPerOne := by
  rw [value_eq, Int.cast_natCast, abs_div, Nat.abs_cast, ← natAbs_scaled, Nat.cast_natAbs,
    Int.cast_abs]

theorem value_eq_zero_iff : x.value = 0 ↔ x.magnitude = 0 := by
  rw [← abs_eq_zero, abs_value, div_eq_zero_iff, or_iff_left cast_unitsPerOne_pos.ne',
    Nat.cast_eq_zero]

theorem Holds.value (h : x.Holds negative units) :
    x.value = signed negative (units / unitsPerOne : ℚ) := by
  have scaled : x.scaled = signed negative (units : Int) := h.scaled
  rw [value_eq, scaled, cast_signed, Int.cast_natCast, Int.cast_natCast, div_eq_mul_inv,
    div_eq_mul_inv, signed_mul]

theorem Holds.signed_scaled (h : x.Holds negative units) : signed negative x.scaled = units := by
  rw [h.scaled, signed]
  cases negative <;> simp

/-- Numbers of one value are the same multiple of the unit, with the sign of
either. -/
theorem value_eq_value_iff (negative : Bool) :
    x.value = y.value ↔ signed negative x.scaled = signed negative y.scaled := by
  have units : ((unitsPerOne : Int) : ℚ) ≠ 0 := by exact_mod_cast unitsPerOne_pos.ne'
  rw [value_eq, value_eq, div_left_inj' units, Int.cast_inj]
  cases negative <;> simp [signed]

/-! ## The grid -/

/-- A double from the leading one on (`large`) has the unit of the leading one,
or a greater one. -/
theorem le_exponent (large : 2 ^ (52 + e) ≤ z.magnitude) : e ≤ z.exponent := by
  have less : 2 ^ (52 + e) < 2 ^ (53 + z.exponent) :=
    calc 2 ^ (52 + e) ≤ z.significand * 2 ^ z.exponent := large
      _ < 2 ^ 53 * 2 ^ z.exponent :=
          Nat.mul_lt_mul_of_pos_right z.significand_lt (Nat.two_pow_pos _)
      _ = 2 ^ (53 + z.exponent) := (Nat.pow_add ..).symm
  have powers := (Nat.pow_lt_pow_iff_right (by decide)).1 less
  omega

/-- Such a double is a multiple of the unit `2 ^ e`, and an even one if its
significand is even. -/
theorem exists_multiple (above : e ≤ z.exponent) (size : t.natAbs = z.magnitude) :
    ∃ k : Int, t = k * 2 ^ e ∧ (Even z.significand → Even k) := by
  have whole : t.natAbs = z.significand * 2 ^ (z.exponent - e) * 2 ^ e := by
    rw [size, magnitude, Nat.mul_assoc, ← Nat.pow_add, Nat.sub_add_cancel above]
  have parity : Even z.significand → Even ((z.significand * 2 ^ (z.exponent - e) : Nat) : Int) :=
    fun even => (Int.even_coe_nat _).2 (even.mul_right _)
  rcases Int.natAbs_eq t with sign | sign
  · refine ⟨_, ?_, parity⟩
    rw [sign, whole]
    push_cast
    rfl
  · refine ⟨_, ?_, fun even => (parity even).neg⟩
    rw [sign, whole]
    push_cast
    ring

/-- The distance to a multiple of the unit `2 ^ e`, brought to units. -/
theorem abs_sub_mul_two_pow (q : ℚ) (k : Int) (e : Nat) :
    |q - k * 2 ^ e| = |q / 2 ^ e - k| * 2 ^ e := by
  have positive : (0 : ℚ) < 2 ^ e := by positivity
  rw [← abs_of_pos positive, ← abs_mul, abs_of_pos positive, sub_mul,
    div_mul_cancel₀ _ positive.ne']

namespace Rounds

/-- No multiple of the unit is nearer than the one that `Rounds` takes. -/
theorem abs_sub_le (h : Rounds q e s) (k : Int) : |q - s * 2 ^ e| ≤ |q - k * 2 ^ e| := by
  have nearest := h.rounded.nearest k
  rw [← Int.cast_natCast s, abs_sub_mul_two_pow, abs_sub_mul_two_pow]
  exact mul_le_mul_of_nonneg_right nearest (by positivity)

/-- What is `below` the leading one is farther away than the leading one. -/
theorem abs_sub_lt (h : Rounds q e s) (below : z.exponent < e) (size : t.natAbs = z.magnitude) :
    |q - s * 2 ^ e| < |q - t| := by
  have leading : 2 ^ (52 + e) ≤ q := h.leading.resolve_left (by omega)
  have less : (t : ℚ) < 2 ^ (52 + e) := by
    have small : z.magnitude < 2 ^ (52 + e) :=
      Nat.lt_of_not_le fun large => Nat.not_le.2 below (le_exponent large)
    exact_mod_cast show t < (2 ^ (52 + e) : Nat) by omega
  calc |q - s * 2 ^ e| ≤ |q - (2 ^ 52 : Int) * 2 ^ e| := h.abs_sub_le (2 ^ 52)
    _ = q - 2 ^ (52 + e) := by
        rw [Int.cast_pow, Int.cast_ofNat, ← pow_add, abs_of_nonneg (sub_nonneg.2 leading)]
    _ < q - t := sub_lt_sub_left less _
    _ ≤ |q - t| := le_abs_self _

/-- **No double is nearer than the multiple** `s`, and if another one is as
near, the multiple is even and that double is not. A double is a multiple of the
unit itself, or it is below the leading one. -/
theorem nearest_multiple (h : Rounds q e s) (size : t.natAbs = z.magnitude) :
    |q - s * 2 ^ e| ≤ |q - t| ∧
      (t ≠ s * 2 ^ e → |q - t| = |q - s * 2 ^ e| → Even s ∧ ¬ Even z.significand) := by
  by_cases above : e ≤ z.exponent
  · obtain ⟨k, rfl, parity⟩ := exists_multiple above size
    have positive : (2 ^ e : ℚ) ≠ 0 := by positivity
    push_cast
    refine ⟨h.abs_sub_le k, fun other tie => ?_⟩
    have other' : k ≠ s := fun same => other (by rw [same])
    rw [← Int.cast_natCast s, abs_sub_mul_two_pow, abs_sub_mul_two_pow,
      mul_left_inj' positive] at tie
    exact ⟨(Int.even_coe_nat s).1 (h.rounded.even k other' tie),
      fun even => other' (h.rounded.eq_of_even (parity even) tie)⟩
  -- no multiple, but below the leading one
  · have farther := h.abs_sub_lt (Nat.lt_of_not_le above) size
    exact ⟨farther.le, fun _ tie => absurd tie farther.ne'⟩

end Rounds

/-! ## The nearest double -/

/-- **The double nearest to a rational number** `q`. It is finite, no finite
double is nearer, and if one of another value is as near, it is the one with the
even significand. -/
structure IsNearest (q : ℚ) (y : Binary64) : Prop where
  finite : y.isFinite = true
  nearest : ∀ z : Binary64, z.isFinite = true → |q - y.value| ≤ |q - z.value|
  even : ∀ z : Binary64, z.isFinite = true → z.value ≠ y.value → |q - z.value| = |q - y.value| →
    Even y.significand

/-- The distance of a double `z` from a quotient, in units. -/
theorem abs_sub_value (negative : Bool) (num den : Nat) (z : Binary64) :
    |signed negative (num / den : ℚ) - z.value| =
      |quotient num den - (signed negative z.scaled : Int)| / unitsPerOne := by
  have units := cast_unitsPerOne_pos
  have turned : quotient num den - (signed negative z.scaled : Int) =
      signed negative (signed negative (num / den : ℚ) - z.value) * unitsPerOne := by
    rw [signed_signed_sub, sub_mul, ← signed_mul, value_eq, Int.cast_natCast,
      div_mul_cancel₀ _ units.ne', cast_signed, quotient, div_mul_eq_mul_div]
  rw [turned, abs_mul, abs_signed, abs_of_pos units, mul_div_cancel_right₀ _ units.ne']

/-- A double `z` compared with the rounded quotient: it is not nearer, and if it
is as near and of another value, the rounded quotient has the even significand
and the double has not. -/
theorem nearest_compared (pos : 0 < den) (finite : (nearest negative num den).isFinite = true)
    (z : Binary64) :
    let q : ℚ := signed negative (num / den : ℚ)
    let y := nearest negative num den
    |q - y.value| ≤ |q - z.value| ∧ (z.value ≠ y.value → |q - z.value| = |q - y.value| →
      Even y.significand ∧ ¬ Even z.significand) := by
  intro q y
  obtain ⟨e, s, h⟩ := exists_rounds num pos
  have made := h.nearest_eq pos negative
  rw [made] at finite
  obtain ⟨holds, parity⟩ := h.holds_assembled finite
  rw [← made] at holds parity
  have own : signed negative y.scaled = s * 2 ^ e := by
    rw [holds.signed_scaled]
    push_cast
    rfl
  have size : (signed negative z.scaled).natAbs = z.magnitude := by
    rw [natAbs_signed, natAbs_scaled]
  obtain ⟨closest, tie⟩ := h.nearest_multiple size
  rw [ne_eq, abs_sub_value, abs_sub_value, value_eq_value_iff negative, own,
    div_left_inj' cast_unitsPerOne_pos.ne']
  push_cast
  exact ⟨div_le_div_of_nonneg_right closest cast_unitsPerOne_pos.le,
    fun other equal => (tie other equal).imp_left parity⟩

/-- **The rounded quotient is the nearest double**, if it is finite: `nearest`
meets `IsNearest`. -/
theorem isNearest_nearest (pos : 0 < den) (finite : (nearest negative num den).isFinite = true) :
    IsNearest (signed negative (num / den : ℚ)) (nearest negative num den) where
  finite := finite
  nearest z _ := (nearest_compared pos finite z).1
  even z _ other tie := ((nearest_compared pos finite z).2 other tie).1

/-- **No double of another value is nearest**, since two of them would both be
even. -/
theorem value_of_isNearest (pos : 0 < den) (finite : (nearest negative num den).isFinite = true)
    (h : IsNearest (signed negative (num / den : ℚ)) z) :
    z.value = (nearest negative num den).value := by
  obtain ⟨closest, tie⟩ := nearest_compared pos finite z
  have equal := le_antisymm (h.nearest _ finite) closest
  by_contra other
  exact (tie other equal).2 (h.even _ finite (Ne.symm other) equal.symm)

/-! ## Zero -/

/-- The least double is one unit, for either sign. -/
theorem holds_least (negative : Bool) : (ofParts negative 1).Holds negative 1 :=
  ⟨isFinite_ofParts (by decide), isNegative_ofParts (by decide), by cases negative <;> decide⟩

/-- A double other than zero is at least one unit away from it, and farther than
zero is from a `small` number. -/
theorem abs_le_abs_sub_value (small : |q| ≤ 1 / unitsPerOne - |q|) (z : Binary64) :
    |q| ≤ |q - z.value| := by
  rcases Nat.eq_zero_or_pos z.magnitude with none | positive
  · rw [value_eq_zero_iff.2 none, sub_zero]
  have least : 1 / (unitsPerOne : ℚ) ≤ |z.value| := by
    rw [abs_value]
    exact div_le_div_of_nonneg_right (by exact_mod_cast positive) cast_unitsPerOne_pos.le
  calc |q| ≤ 1 / unitsPerOne - |q| := small
    _ ≤ |z.value| - |q| := sub_le_sub_right least _
    _ ≤ |z.value - q| := abs_sub_abs_le_abs_sub ..
    _ = |q - z.value| := abs_sub_comm ..

/-- **Zero is nearest up to half the least double** (`IsNearest`), and half of
it goes to zero as the even one. Beyond it the least double of the same sign is
nearer. -/
theorem isNearest_iff_of_zero (finite : y.isFinite = true) (zero : y.value = 0) :
    IsNearest q y ↔ |q| * (2 * unitsPerOne) ≤ 1 := by
  have units := cast_unitsPerOne_pos
  have half : |q| * (2 * unitsPerOne) ≤ 1 ↔ |q| ≤ 1 / unitsPerOne - |q| := by
    rw [le_sub_iff_add_le, le_div_iff₀ units, ← two_mul]
    ring_nf
  rw [half]
  constructor
  · intro h
    have least := holds_least (q < 0)
    have near := h.nearest _ least.finite
    rw [zero, sub_zero, least.value, Nat.cast_one, abs_sub_signed] at near
    rcases abs_cases (|q| - 1 / (unitsPerOne : ℚ)) with ⟨size, -⟩ | ⟨size, -⟩
    · have positive : 0 < 1 / (unitsPerOne : ℚ) := one_div_pos.2 units
      linarith
    · linarith
  · intro small
    have significand : y.significand = 0 :=
      (Nat.mul_eq_zero.1 (value_eq_zero_iff.1 zero)).resolve_right (Nat.two_pow_pos _).ne'
    refine ⟨finite, fun z _ => ?_, fun _ _ _ _ => significand ▸ Even.zero⟩
    rw [zero, sub_zero]
    exact abs_le_abs_sub_value small z

/-- No integer `v` but zero has zero as its nearest double. -/
theorem eq_zero_of_isNearest {v : Int} (h : IsNearest v y) (zero : y.value = 0) : v = 0 := by
  have small := (isNearest_iff_of_zero h.finite zero).1 h
  have units : (1 : ℚ) ≤ unitsPerOne := by exact_mod_cast unitsPerOne_pos
  by_contra nonzero
  have whole : (1 : ℚ) ≤ |(v : ℚ)| := by exact_mod_cast Int.one_le_abs nonzero
  have great : (1 : ℚ) * (2 * unitsPerOne) ≤ |(v : ℚ)| * (2 * unitsPerOne) :=
    mul_le_mul_of_nonneg_right whole (by linarith)
  linarith

end Binary64

end FeltWire

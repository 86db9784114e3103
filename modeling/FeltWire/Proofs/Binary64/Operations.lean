import FeltWire.Proofs.Binary64.Nearest

/-!
# Operations on doubles

A program that computes with doubles rounds after every operation. An operation
whose exact result is a double rounds nothing away, and two such operations
after one another are exact together. This is so for the product with a power of
two that is not less than one: the significand stays as it is and the exponent
grows, also out of the numbers that have no leading one, until the product is
infinite. And it is so for the integer nearest to a double, which has no more
bits than the double.

## Main definitions

* `Binary64.times`, `Binary64.roundEven`, `Binary64.toInt64`: the product of any
  two doubles, the nearest integer as a double, and the integer that is left of
  a double without its fraction
* `Binary64.powerOfTwo`: a power of two as a double

## Main results

* `holds_times`, `isFinite_times_of_large`: the product with a power of two is
  exact or infinite
* `holds_roundEven`, `scaled_roundEven`: the nearest integer is exact
-/

namespace FeltWire.Binary64

/-! ## Signs -/

variable {x y : Binary64} {negative : Bool} {units n : Nat}

theorem Holds.neg (h : x.Holds negative units) : x.neg.Holds (!negative) units := by
  have field : x.exponentField < 2 ^ 11 := Nat.mod_lt _ (by decide)
  have finite : x.exponentField ≠ 2047 := of_decide_eq_true h.finite
  have low : x.bits.toNat % 2 ^ 63 < 2 ^ 63 := Nat.mod_lt _ (by decide)
  have kept : x.neg.exponentField = x.exponentField ∧ x.neg.fraction = x.fraction := by
    rw [Binary64.neg, exponentField_ofParts low, fraction_ofParts low, exponentField, fraction]
    omega
  refine ⟨?_, ?_, ?_⟩
  · rw [isFinite, kept.1]
    exact h.finite
  · rw [Binary64.neg, isNegative_ofParts low, h.sign]
  · rw [Binary64.magnitude, significand, exponent, kept.1, kept.2]
    exact h.magnitude

/-! ## Products with powers of two -/

/-- **The product of any two doubles**, where `mul` is for finite ones. That of
an infinity and a zero is `nan`. -/
def times (x y : Binary64) : Binary64 :=
  if x.isNaN ∨ y.isNaN then nan
  else if x.isFinite ∧ y.isFinite then x.mul y
  else if x.magnitude = 0 ∨ y.magnitude = 0 then nan
  else infinity (x.isNegative ^^ y.isNegative)

/-- A power of two, as a double; infinite from `2 ^ 1024` on. -/
def powerOfTwo (n : Nat) : Binary64 := ofInt (2 ^ n)

theorem powerOfTwo_eq (n : Nat) : powerOfTwo n = nearest false (2 ^ n) 1 := by
  have positive : (0 : Int) ≤ 2 ^ n := Int.pow_nonneg (by decide)
  have sign : decide ((2 : Int) ^ n < 0) = false := decide_eq_false (Int.not_lt.2 positive)
  have natural : ((2 : Int) ^ n).natAbs = 2 ^ n := by rw [Int.natAbs_pow]; rfl
  rw [powerOfTwo, ofInt, sign, natural]

theorem holds_powerOfTwo (small : n ≤ 1023) : (powerOfTwo n).Holds false (2 ^ n * unitsPerOne) := by
  obtain ⟨k, hk, units⟩ := exists_unitsPerOne
  have shifted : 2 ^ n * unitsPerOne = 2 ^ 52 * 2 ^ (n + 1022) := by
    rw [units, ← Nat.pow_add, ← Nat.pow_add]
    clear units
    congr 1
    omega
  rw [powerOfTwo_eq, shifted]
  exact nearest_of_exact false Nat.one_pos (by rw [shifted, Nat.mul_one]) (by decide) (by omega)

theorem isNaN_of_isFinite (h : x.isFinite = true) : x.isNaN = false := by
  simp_all [isNaN, isFinite]

theorem times_of_isFinite (hx : x.isFinite = true) (hy : y.isFinite = true) :
    x.times y = x.mul y := by
  rw [times, isNaN_of_isFinite hx, isNaN_of_isFinite hy, if_neg (by simp), if_pos ⟨hx, hy⟩]

/-- What is infinite or not a number stays so in a product. -/
theorem isFinite_times (h : x.isFinite = false) (y : Binary64) : (x.times y).isFinite = false := by
  have nan : nan.isFinite = false := by decide
  unfold times
  split
  · exact nan
  · rw [if_neg (by simp [h])]
    split
    · exact nan
    · exact isFinite_infinity _

/-- The exact product with a power of two, in units, as the quotient whose
`nearest` double is taken. -/
theorem times_eq_nearest (hx : x.isFinite = true) (hy : y.Holds false (2 ^ n * unitsPerOne)) :
    x.times y = nearest x.isNegative (x.significand * 2 ^ (x.exponent + n) * unitsPerOne)
      (unitsPerOne * unitsPerOne) := by
  have product : x.significand * 2 ^ x.exponent * (2 ^ n * unitsPerOne) =
      x.significand * 2 ^ (x.exponent + n) * unitsPerOne := by
    rw [Nat.pow_add]
    ring
  rw [times_of_isFinite hx hy.finite, mul, hy.sign, Bool.xor_false, hy.magnitude, magnitude,
    product]

/-- An exponent above the least leaves the leading one of the `significand` in
place. -/
theorem le_significand (h : 0 < x.exponent) : 2 ^ 52 ≤ x.significand := by
  have field : x.exponentField ≠ 0 := by
    unfold exponent at h
    omega
  rw [significand, if_neg field]
  exact Nat.le_add_right ..

/-- **The product with a power of two is exact**, unless it is too great
(`room`). -/
theorem holds_times (hx : x.isFinite = true) (hy : y.Holds false (2 ^ n * unitsPerOne))
    (room : x.exponent + n ≤ 2045) : (x.times y).Holds x.isNegative (x.magnitude * 2 ^ n) := by
  have product : x.magnitude * 2 ^ n = x.significand * 2 ^ (x.exponent + n) := by
    rw [magnitude, Nat.mul_assoc, Nat.pow_add]
  rw [times_eq_nearest hx hy, product]
  exact nearest_of_exact _ (Nat.mul_pos unitsPerOne_pos unitsPerOne_pos) (Nat.mul_assoc ..)
    x.significand_lt room

/-- What passes the greatest double (`large`) is infinite. -/
theorem isFinite_times_of_large (hx : x.isFinite = true) (hy : y.Holds false (2 ^ n * unitsPerOne))
    (normal : 2 ^ 52 ≤ x.significand) (large : 2046 ≤ x.exponent + n) :
    (x.times y).isFinite = false := by
  have above : 2 ^ (52 + (x.exponent + n)) * (unitsPerOne * unitsPerOne) ≤
      x.significand * 2 ^ (x.exponent + n) * unitsPerOne * unitsPerOne := by
    rw [Nat.mul_assoc _ unitsPerOne, Nat.pow_add 2 52]
    exact Nat.mul_le_mul_right _ (Nat.mul_le_mul_right _ normal)
  rw [times_eq_nearest hx hy,
    nearest_of_large (Nat.mul_pos unitsPerOne_pos unitsPerOne_pos) large above, isFinite_infinity]

/-! ## The nearest integer -/

/-- **The integer nearest to a double** by `divHalfEven`, as a double of the
same sign; a half goes to the even neighbour. -/
def roundEven (x : Binary64) : Binary64 :=
  if x.isFinite then nearest x.isNegative (divHalfEven x.scaled unitsPerOne).natAbs 1 else x

/-- The integer that is left of a finite double without its fraction, brought to
64 bits. -/
def toInt64 (x : Binary64) : Int64 :=
  .ofInt (max (-2 ^ 63) (min (2 ^ 63 - 1) (x.scaled.tdiv unitsPerOne)))

theorem isFinite_roundEven (h : x.isFinite = false) : x.roundEven.isFinite = false := by
  rw [roundEven, if_neg (by simp [h]), h]

/-- The exponent of a finite number is not the greatest. -/
theorem exponent_le (h : x.isFinite = true) : x.exponent ≤ 2045 := by
  have field : x.exponentField < 2 ^ 11 := Nat.mod_lt _ (by decide)
  have finite : x.exponentField ≠ 2047 := of_decide_eq_true h
  rw [exponent]
  omega

/-- **The nearest integer is exact**: it has no more bits than the number, so
that `roundEven` holds it. -/
theorem holds_roundEven (h : x.isFinite = true) : x.roundEven.Holds x.isNegative
    ((divHalfEven x.scaled unitsPerOne).natAbs * unitsPerOne) := by
  obtain ⟨s, e, few, small, rounded⟩ :=
    exists_significand_divHalfEven x.significand_lt x.natAbs_scaled
  obtain ⟨k, hk, units⟩ := exists_unitsPerOne
  have bounded := exponent_le h
  have shifted : (divHalfEven x.scaled unitsPerOne).natAbs * unitsPerOne = s * 2 ^ (e + k) := by
    rw [rounded, Nat.pow_add, ← units, Nat.mul_assoc]
  rw [roundEven, if_pos h, shifted]
  clear units
  exact nearest_of_exact _ Nat.one_pos (by rw [shifted, Nat.mul_one]) few (by omega)

theorem scaled_nonpos (h : x.isNegative = true) : x.scaled ≤ 0 := by
  rw [scaled, if_pos h]
  exact Int.neg_nonpos_of_nonneg (Int.natCast_nonneg _)

theorem scaled_nonneg (h : x.isNegative = false) : 0 ≤ x.scaled := by
  rw [scaled, if_neg (by simp [h])]
  exact Int.natCast_nonneg _

theorem scaled_roundEven (h : x.isFinite = true) :
    x.roundEven.scaled = divHalfEven x.scaled unitsPerOne * unitsPerOne := by
  have positive : (0 : Int) < unitsPerOne := Int.natCast_pos.2 unitsPerOne_pos
  rw [(holds_roundEven h).scaled, Int.natCast_mul]
  cases sign : x.isNegative with
  | true =>
    have below := divHalfEven_nonpos positive (scaled_nonpos sign)
    rw [if_pos rfl, Int.ofNat_natAbs_of_nonpos below, Int.neg_mul, Int.neg_neg]
  | false =>
    have above := divHalfEven_nonneg positive (scaled_nonneg sign)
    rw [if_neg (by decide), Int.natAbs_of_nonneg above]

/-- What has no fraction (`whole`) is itself left by `toInt64`, if it is a
signed integer of 64 bits. -/
theorem toInt64_of_whole {v : Int} (whole : x.scaled = v * unitsPerOne) (low : -2 ^ 63 ≤ v)
    (high : v < 2 ^ 63) : x.toInt64 = .ofInt v := by
  have nonzero : (unitsPerOne : Int) ≠ 0 := (Int.natCast_pos.2 unitsPerOne_pos).ne'
  rw [toInt64, whole, Int.mul_tdiv_cancel _ nonzero, min_eq_right (by omega),
    max_eq_right low]

end FeltWire.Binary64

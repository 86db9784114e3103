import FeltWire.Proofs.Binary64.Quotients
import FeltWire.Proofs.Binary64.Values
import FeltWire.Proofs.Fixed.Arithmetic

/-!
# The double that a fixed-point number is shown as

A number at a scale below 1024 is shown as the double nearest to
`raw / 2 ^ scale`. From 1024 on the power of two that the raw value is divided
by is no finite double any more, and the number is shown as zero. This is the
nearest double only where the number is at most half the least one, and at the
scales from 1024 to 1137 there are greater numbers than that.

A scale from `2 ^ 31` on is read as a negative exponent, and the raw value is
multiplied by a power of two in place of being divided by one. Then no number
but zero is shown as it should be, and not even zero is where the power that the
raw value is divided by vanishes.

## Main definitions

* `toBinary64Stepwise`: the double of a fixed-point number, found in doubles at
  every scale

## Main results

* `toBinary64Stepwise_eq`: the double is found in doubles
* `isNearest_quotient`: which double is nearest
* `isNearest_toBinary64`: it is shown at scales below 1024
* `isNearest_toBinary64_iff_of_large`, `isNearest_toBinary64_iff_of_wrapped`:
  when it is shown at greater scales, and at those that are read as negative
  exponents
* `nearest_double_iff`: which numbers are shown as the nearest double, and what
  the others are shown as
-/

namespace FeltWire.Fixed

open Binary64 (IsNearest unitsPerOne)

variable {x : Fixed}

/-! ## In doubles -/

/-- **The double of a fixed-point number, found in doubles**: the raw value as a
double, divided by the power of two whose exponent the scale is read as
(`exponentOf`). -/
def toBinary64Stepwise (x : Fixed) : Binary64 :=
  (Binary64.ofInt x.raw.toInt).dividedBy ((Binary64.ofInt 2).power (exponentOf x.scale))

/-- **The double is found in doubles**, at every scale: `toBinary64Stepwise` is
`toBinary64`. -/
theorem toBinary64Stepwise_eq (x : Fixed) : x.toBinary64Stepwise = x.toBinary64 := by
  rw [toBinary64Stepwise, Binary64.ofInt_dividedBy_power x.natAbs_raw_le, toBinary64]

/-! ## The nearest double -/

theorem value_eq_signed (x : Fixed) : x.value =
    signed (x.raw.toInt < 0) (x.raw.toInt.natAbs / (2 ^ x.scale.toNat : Nat) : ℚ) := by
  rw [value, div_eq_mul_inv, div_eq_mul_inv, signed_mul, signed_natAbs]

/-- **The nearest double** to a fixed-point number, and no double of another
value is. It is the `nearest` of the exact quotient. -/
theorem isNearest_quotient (x : Fixed) :
    let y := Binary64.nearest (x.raw.toInt < 0) x.raw.toInt.natAbs (2 ^ x.scale.toNat)
    IsNearest x.value y ∧ ∀ z, IsNearest x.value z → z.value = y.value := by
  intro y
  have pos : 0 < 2 ^ x.scale.toNat := Nat.two_pow_pos _
  have small : x.raw.toInt.natAbs < 2 ^ 64 * 2 ^ x.scale.toNat :=
    calc x.raw.toInt.natAbs ≤ 2 ^ 63 := x.natAbs_raw_le
      _ < 2 ^ 64 := by decide
      _ ≤ 2 ^ 64 * 2 ^ x.scale.toNat := Nat.le_mul_of_pos_right _ pos
  have finite : y.isFinite = true := Binary64.isFinite_nearest (by decide) pos small
  rw [value_eq_signed]
  exact ⟨Binary64.isNearest_nearest pos finite, fun _ => Binary64.value_of_isNearest pos finite⟩

/-- Below 1024 the nearest double is what `toBinary64` shows. -/
theorem isNearest_toBinary64 (small : x.scale.toNat < 1024) : IsNearest x.value x.toBinary64 := by
  rw [toBinary64_eq small]
  exact x.isNearest_quotient.1

theorem value_zero (negative : Bool) : (Binary64.zero negative).value = 0 := by
  rw [Binary64.value_eq_zero_iff]
  cases negative <;> decide

theorem isFinite_zero (negative : Bool) : (Binary64.zero negative).isFinite = true := by
  cases negative <;> decide

/-- Zero is the nearest double of the numbers up to half the least one,
`2 ^ -1075`. -/
theorem isNearest_zero_iff {y : Binary64} (finite : y.isFinite = true) (zero : y.value = 0) :
    IsNearest x.value y ↔ |x.raw.toInt| * 2 ^ 1075 ≤ 2 ^ x.scale.toNat := by
  obtain ⟨k, hk, units⟩ := Binary64.exists_unitsPerOne
  have power : (0 : ℚ) < (2 ^ x.scale.toNat : Nat) := Nat.cast_pos.2 (Nat.two_pow_pos _)
  have twice : (2 * unitsPerOne : ℚ) = 2 ^ (k + 1) := by
    rw [units, pow_succ']
    push_cast
    rfl
  rw [Binary64.isNearest_iff_of_zero finite zero, value, abs_div, Nat.abs_cast, div_mul_eq_mul_div,
    div_le_iff₀ power, one_mul, twice, show 1075 = k + 1 by omega]
  exact_mod_cast Iff.rfl

/-! ## Great scales -/

/-- From 1024 on a number is shown as zero, as long as `unsigned` keeps the
exponent positive. -/
theorem toBinary64_of_large (x : Fixed) (large : 1024 ≤ x.scale.toNat)
    (unsigned : x.scale.toNat < 2 ^ 31) : x.toBinary64 = .zero (x.raw.toInt < 0) := by
  have exponent : exponentOf x.scale = x.scale.toNat := by
    unfold exponentOf
    rw [Int.bmod_eq_of_le] <;> omega
  rw [toBinary64, exponent, if_pos (by omega)]

/-- **Zero is the nearest double** where the number is at most half the least
one, and only there is the zero of `toBinary64_of_large` right. -/
theorem isNearest_toBinary64_iff_of_large (large : 1024 ≤ x.scale.toNat)
    (unsigned : x.scale.toNat < 2 ^ 31) :
    IsNearest x.value x.toBinary64 ↔ |x.raw.toInt| * 2 ^ 1075 ≤ 2 ^ x.scale.toNat := by
  rw [x.toBinary64_of_large large unsigned]
  exact isNearest_zero_iff (isFinite_zero _) (value_zero _)

/-! ## Scales that are read as negative exponents -/

theorem exponentOf_of_wrapped {scale : UInt32} (wrapped : 2 ^ 31 ≤ scale.toNat) :
    exponentOf scale = scale.toNat - 2 ^ 32 := by
  have high := scale.toNat_lt
  unfold exponentOf
  rw [Int.bmod_def]
  omega

/-- Where the power of two vanishes, no number is shown, as `wrapped` and `low`
say. -/
theorem isFinite_toBinary64_of_wrapped (x : Fixed) (wrapped : 2 ^ 31 ≤ x.scale.toNat)
    (low : x.scale.toNat ≤ 2 ^ 32 - 1024) : x.toBinary64.isFinite = false := by
  rw [toBinary64, exponentOf_of_wrapped wrapped]
  rw [if_neg (by omega), if_pos (by omega)]
  split
  · decide
  · exact Binary64.isFinite_infinity _

/-- Otherwise the raw value is multiplied by the power of two, whose exponent is
`2 ^ 32` less the scale. -/
theorem toBinary64_of_wrapped (high : 2 ^ 32 - 1024 < x.scale.toNat) : x.toBinary64 =
    .nearest (x.raw.toInt < 0) (x.raw.toInt.natAbs * 2 ^ (2 ^ 32 - x.scale.toNat)) 1 := by
  have bound := x.scale.toNat_lt
  have down : ((x.scale.toNat : Int) - 2 ^ 32).toNat = 0 := by omega
  have up : (-((x.scale.toNat : Int) - 2 ^ 32)).toNat = 2 ^ 32 - x.scale.toNat := by omega
  rw [toBinary64, exponentOf_of_wrapped (by omega)]
  rw [if_neg (by omega), if_neg (by omega), down, up, Nat.pow_zero]

/-- **The raw value is multiplied** by a power of two, in place of being
divided, and what is shown is nearest to that. -/
theorem isNearest_product (x : Fixed) (high : 2 ^ 32 - 1024 < x.scale.toNat)
    (finite : x.toBinary64.isFinite = true) :
    IsNearest (x.raw.toInt * 2 ^ (2 ^ 32 - x.scale.toNat)) x.toBinary64 := by
  rw [toBinary64_of_wrapped high] at finite ⊢
  generalize 2 ^ 32 - x.scale.toNat = k at finite ⊢
  have product : (x.raw.toInt * 2 ^ k : ℚ) =
      signed (x.raw.toInt < 0) ((x.raw.toInt.natAbs * 2 ^ k : Nat) / (1 : Nat) : ℚ) := by
    rw [Nat.cast_one, div_one, Nat.cast_mul, signed_mul, signed_natAbs, Nat.cast_pow,
      Nat.cast_ofNat]
  rw [product]
  exact Binary64.isNearest_nearest Nat.one_pos finite

/-- A number at such a scale (`wrapped`) is far less than the least double. -/
theorem isNearest_zero_of_wrapped (wrapped : 2 ^ 31 ≤ x.scale.toNat) :
    IsNearest x.value (Binary64.zero false) := by
  obtain ⟨k, hk⟩ : ∃ k, k = 1075 := ⟨_, rfl⟩
  rw [isNearest_zero_iff (isFinite_zero _) (value_zero _), Int.abs_eq_natAbs, ← hk]
  have small : x.raw.toInt.natAbs * 2 ^ k ≤ 2 ^ x.scale.toNat :=
    calc x.raw.toInt.natAbs * 2 ^ k ≤ 2 ^ 63 * 2 ^ k := Nat.mul_le_mul_right _ x.natAbs_raw_le
      _ = 2 ^ (63 + k) := (Nat.pow_add ..).symm
      _ ≤ 2 ^ x.scale.toNat := Nat.pow_le_pow_right (by decide) (by omega)
  exact_mod_cast small

/-- **Only zero is shown as it should be** at scales that are `wrapped`, and
where the power of two vanishes not even zero. The nearest double of any other
number is zero, while the product is an integer. -/
theorem isNearest_toBinary64_iff_of_wrapped (wrapped : 2 ^ 31 ≤ x.scale.toNat) :
    IsNearest x.value x.toBinary64 ↔ x.raw = 0 ∧ 2 ^ 32 - 1024 < x.scale.toNat := by
  constructor
  · intro h
    have high : 2 ^ 32 - 1024 < x.scale.toNat := by
      refine Nat.not_le.1 fun low => ?_
      exact Bool.false_ne_true ((x.isFinite_toBinary64_of_wrapped wrapped low).symm.trans h.finite)
    -- the nearest double is zero, the product is an integer
    have zero : x.toBinary64.value = 0 := by
      have vanishes := x.isNearest_quotient.2 _ (isNearest_zero_of_wrapped wrapped)
      rw [x.isNearest_quotient.2 _ h, ← vanishes, value_zero]
    have product : x.raw.toInt * 2 ^ (2 ^ 32 - x.scale.toNat) = 0 :=
      Binary64.eq_zero_of_isNearest (by exact_mod_cast x.isNearest_product high h.finite) zero
    have none : x.raw.toInt = 0 := (Int.mul_eq_zero.1 product).resolve_right (by positivity)
    exact ⟨Int64.toInt_inj.1 none, high⟩
  · rintro ⟨none, high⟩
    have finite : x.toBinary64.isFinite = true := by
      rw [toBinary64_of_wrapped high, none]
      exact Binary64.isFinite_nearest (b := 0) (by decide) Nat.one_pos (by simp)
    have same : x.value = x.raw.toInt * 2 ^ (2 ^ 32 - x.scale.toNat) := by
      rw [value, none, Int64.toInt_zero, Int.cast_zero, zero_div, zero_mul]
    rw [same]
    exact x.isNearest_product high finite

/-! ## Every scale -/

/-- **Which numbers are shown as the nearest double** (`IsNearest`). Every
number has a nearest double, of one value. It is shown at scales below 1024, at
greater ones below `2 ^ 31` where the number is at most half the least double,
and from `2 ^ 31` on only for zero at the last 1023 scales. The other numbers
are shown as zero, as what is not finite, or as the double nearest to the raw
value times a power of two, each of these at the scales of one kind. All this is
so of what is found in doubles (`toBinary64Stepwise`). -/
theorem nearest_double_iff (raw : Int64) (scale : UInt32) :
    let x : Fixed := ⟨raw, scale⟩
    (∃ y, IsNearest x.value y ∧ ∀ z, IsNearest x.value z → z.value = y.value) ∧
    (IsNearest x.value x.toBinary64 ↔ scale.toNat < 1024 ∨
      scale.toNat < 2 ^ 31 ∧ |raw.toInt| * 2 ^ 1075 ≤ 2 ^ scale.toNat ∨
      raw = 0 ∧ 2 ^ 32 - 1024 < scale.toNat) ∧
    (1024 ≤ scale.toNat → scale.toNat < 2 ^ 31 → x.toBinary64 = .zero (raw.toInt < 0)) ∧
    (2 ^ 31 ≤ scale.toNat → scale.toNat ≤ 2 ^ 32 - 1024 → x.toBinary64.isFinite = false) ∧
    (2 ^ 32 - 1024 < scale.toNat → x.toBinary64.isFinite = true →
      IsNearest (raw.toInt * 2 ^ (2 ^ 32 - scale.toNat)) x.toBinary64) ∧
    x.toBinary64Stepwise = x.toBinary64 := by
  intro x
  refine ⟨⟨_, x.isNearest_quotient⟩, ?_, x.toBinary64_of_large, x.isFinite_toBinary64_of_wrapped,
    x.isNearest_product, x.toBinary64Stepwise_eq⟩
  rcases Nat.lt_or_ge scale.toNat 1024 with small | large
  · exact iff_of_true (isNearest_toBinary64 small) (.inl small)
  rcases Nat.lt_or_ge scale.toNat (2 ^ 31) with unsigned | wrapped
  · have not_wrapped : ¬ (raw = 0 ∧ 2 ^ 32 - 1024 < scale.toNat) := fun h => by omega
    rw [isNearest_toBinary64_iff_of_large large unsigned, or_iff_right (Nat.not_lt.2 large),
      and_iff_right unsigned, or_iff_left not_wrapped]
  · rw [isNearest_toBinary64_iff_of_wrapped wrapped, or_iff_right (Nat.not_lt.2 large),
      or_iff_right (fun h => Nat.not_lt.2 wrapped h.1)]

/-- One scale of each kind: the last one at which the least raw values are
shown, the first one at which they are not, and the first and the last one that
are read as negative exponents. -/
theorem nearest_double_iff_scales :
    IsNearest (value ⟨-1, 1023⟩) (toBinary64 ⟨-1, 1023⟩) ∧
    toBinary64 ⟨-1, 1024⟩ = .zero true ∧ ¬ IsNearest (value ⟨-1, 1024⟩) (toBinary64 ⟨-1, 1024⟩) ∧
    (toBinary64 ⟨0, 2147483648⟩).isFinite = false ∧
    IsNearest (6 : ℚ) (toBinary64 ⟨3, 4294967295⟩) := by
  obtain ⟨-, small, -⟩ := nearest_double_iff (-1) 1023
  obtain ⟨-, large, zero, -⟩ := nearest_double_iff (-1) 1024
  obtain ⟨-, -, -, vanishing, -⟩ := nearest_double_iff 0 2147483648
  obtain ⟨-, -, -, -, product, -⟩ := nearest_double_iff 3 4294967295
  have finite : (toBinary64 ⟨3, 4294967295⟩).isFinite = true := by decide +kernel
  have raw : (3 : Int64).toInt = 3 := by decide
  have exponent : 2 ^ 32 - (4294967295 : UInt32).toNat = 1 := by decide
  have six : ((3 : Int) * 2 ^ 1 : ℚ) = 6 := by norm_num
  have doubled := product (by decide) finite
  rw [raw, exponent, six] at doubled
  refine ⟨small.2 (.inl (by decide)), zero (by decide) (by decide), fun h => ?_,
    vanishing (by decide) (by decide), doubled⟩
  rcases large.1 h with less | ⟨-, half⟩ | ⟨none, -⟩
  · exact absurd less (by decide)
  · exact absurd half (by decide +kernel)
  · exact absurd none (by decide)

/-- **A scale that is read as the exponent -1.** The raw value one is doubled at
it, while the nearest double is zero. -/
theorem wrapped_scale_doubles :
    IsNearest (value ⟨1, 4294967295⟩) (.zero false) ∧
    toBinary64 ⟨1, 4294967295⟩ = .ofInt 2 ∧
    ¬ IsNearest (value ⟨1, 4294967295⟩) (toBinary64 ⟨1, 4294967295⟩) := by
  refine ⟨isNearest_zero_of_wrapped (by decide), by decide +kernel, fun h => ?_⟩
  obtain ⟨none, -⟩ := (isNearest_toBinary64_iff_of_wrapped (by decide)).1 h
  exact absurd none (by decide)

end FeltWire.Fixed

import FeltWire.Proofs.Binary64.Operations
import FeltWire.Proofs.Binary64.Values
import FeltWire.Proofs.Fixed.Ratio

/-!
# Fixed-point numbers from doubles

The number that a double gives has the raw value nearest to the scaled double,
read as the rational number that it is. A program finds it in doubles: it
multiplies with a power of two, rounds to an integer, compares with the limits
of 64 bits and takes the integer out.

## Only one of these steps rounds

The power of two is not less than one. So the product has the significand of the
double and a greater exponent, and is a double itself, the least numbers
included, unless it passes the greatest. Then it is infinite, and the exact
product is far from all raw values. The nearest integer has no more bits than
the product, and so it is a double, too. The limits are doubles, and the upper
one, `2 ^ 63`, is no raw value itself, while the lower one is.

## Main definitions

* `IsRawOfDouble`: the raw value of a double, where it fits 64 bits
* `rawInDoubles?`, `ofBinary64InDoubles`: the number that a double gives, found
  in doubles

## Main results

* `scaled_product`, `raw?_of_large`: the product is exact, or the number has no
  raw value
* `rawInDoubles?_eq`: the raw value is found in doubles
* `ofBinary64_exact`: which number a double gives, and that it gives an overflow
  otherwise
-/

namespace FeltWire.Fixed

open Binary64 (unitsPerOne unitsPerOne_pos powerOfTwo)

variable {y : Binary64} {scale : UInt32}

/-! ## The product with the power of two -/

/-- The double `y` times the power of two of a `scale`. -/
def product (y : Binary64) (scale : Nat) : Binary64 := y.times (powerOfTwo scale)

/-- **The product is exact** unless the exponent is too great for a finite
number (`room`). -/
theorem scaled_product {s : Nat} (small : s ≤ maxScale) (finite : y.isFinite = true)
    (room : y.exponent + s ≤ 2045) :
    (product y s).isFinite = true ∧ (product y s).scaled = y.scaled * 2 ^ s := by
  have power := Binary64.holds_powerOfTwo (n := s) (Nat.le_trans small (by decide))
  have exact := Binary64.holds_times finite power room
  refine ⟨exact.finite, ?_⟩
  rw [product, exact.scaled, Binary64.scaled]
  push_cast
  split
  · rw [Int.neg_mul]
  · rfl

/-- **Where the product is infinite**, the number has no raw value, so that
nothing is lost (`large`). -/
theorem raw?_of_large {s : Nat} (small : s ≤ maxScale) (finite : y.isFinite = true)
    (large : 2046 ≤ y.exponent + s) : (product y s).isFinite = false ∧
      raw? (divHalfEven (y.scaled * 2 ^ s) unitsPerOne) = none := by
  have bounded : s ≤ 126 := small
  have power := Binary64.holds_powerOfTwo (n := s) (Nat.le_trans small (by decide))
  have normal := Binary64.le_significand (x := y) (by omega)
  refine ⟨Binary64.isFinite_times_of_large finite power normal large, ?_⟩
  have size : 2 ^ 64 * unitsPerOne ≤ (y.scaled * 2 ^ s).natAbs := by
    obtain ⟨k, hk, units⟩ := Binary64.exists_unitsPerOne
    rw [units, Int.natAbs_mul, Int.natAbs_pow, Binary64.natAbs_scaled, Binary64.magnitude,
      Nat.mul_assoc]
    clear units
    calc 2 ^ 64 * 2 ^ k = 2 ^ 52 * 2 ^ (12 + k) := by
          rw [← Nat.pow_add, ← Nat.pow_add]
          congr 1
          omega
      _ ≤ y.significand * 2 ^ (y.exponent + s) :=
          Nat.mul_le_mul normal (Nat.pow_le_pow_right (by decide) (by omega))
      _ = y.significand * (2 ^ y.exponent * (2 : Int).natAbs ^ s) :=
          congrArg _ (Nat.pow_add ..)
  have far := le_natAbs_divHalfEven (b := 2 ^ 64) (Int.natCast_pos.2 unitsPerOne_pos)
    (Int.ofNat_le.2 size)
  rw [raw?, if_neg (by omega)]

/-! ## In doubles -/

/-- The bound of raw values as a double, `2 ^ 63`, which is not a raw value
itself. -/
def limit : Binary64 := powerOfTwo 63

/-- The raw value that a double without a fraction is, if it is finite and
within the `limit`. -/
def taken? (x : Binary64) : Option Int64 :=
  if x.isFinite = false ∨ x.scaled < limit.neg.scaled ∨ limit.scaled ≤ x.scaled then none
  else some x.toInt64

/-- **The raw value nearest to a scaled double, found in doubles**: the
`product`, rounded by `roundEven`, if it is `taken?`. -/
def rawInDoubles? (y : Binary64) (scale : Nat) : Option Int64 :=
  if maxScale < scale then none else taken? (product y scale).roundEven

/-- The number that a double gives, found in doubles by `rawInDoubles?`. -/
def ofBinary64InDoubles (y : Binary64) (scale : UInt32) : Except Fault Fixed :=
  ofRaw? (rawInDoubles? y scale.toNat) scale (.double y)

theorem scaled_limit : limit.scaled = 2 ^ 63 * unitsPerOne := by
  rw [limit, (Binary64.holds_powerOfTwo (by decide)).scaled, if_neg (by decide)]
  push_cast
  rfl

theorem scaled_neg_limit : limit.neg.scaled = -2 ^ 63 * unitsPerOne := by
  rw [limit, (Binary64.holds_powerOfTwo (by decide)).neg.scaled, if_pos (by decide)]
  push_cast
  rw [Int.neg_mul]

theorem taken?_of_not_isFinite {x : Binary64} (h : x.isFinite = false) : taken? x = none :=
  if_pos (.inl h)

/-- A finite double without a fraction (`whole`) is taken if its value is a raw
value. -/
theorem taken?_of_whole {x : Binary64} {v : Int} (finite : x.isFinite = true)
    (whole : x.scaled = v * unitsPerOne) : taken? x = raw? v := by
  have positive : (0 : Int) < unitsPerOne := Int.natCast_pos.2 unitsPerOne_pos
  have within : (x.scaled < limit.neg.scaled ∨ limit.scaled ≤ x.scaled) ↔
      ¬ (-2 ^ 63 ≤ v ∧ v < 2 ^ 63) := by
    rw [scaled_limit, scaled_neg_limit, whole, Int.mul_lt_mul_right positive,
      Int.mul_le_mul_right positive]
    omega
  unfold taken? raw?
  by_cases fits : -2 ^ 63 ≤ v ∧ v < 2 ^ 63
  · rw [if_neg ?_, if_pos fits, Binary64.toInt64_of_whole whole fits.1 fits.2]
    rintro (infinite | out)
    · exact Bool.false_ne_true (infinite.symm.trans finite)
    · exact within.1 out fits
  · rw [if_pos (.inr (within.2 fits)), if_neg fits]

/-- **The raw value is found in doubles**: `rawInDoubles?` is
`rawOfBinary64?`. -/
theorem rawInDoubles?_eq (y : Binary64) (s : Nat) : rawInDoubles? y s = rawOfBinary64? y s := by
  unfold rawInDoubles? rawOfBinary64?
  by_cases small : s ≤ maxScale
  · rw [if_neg (Nat.not_lt.2 small)]
    cases finite : y.isFinite with
    | false =>
      have product : (product y s).isFinite = false := Binary64.isFinite_times finite _
      rw [taken?_of_not_isFinite (Binary64.isFinite_roundEven product), if_neg (by simp)]
    | true =>
      rw [if_pos ⟨small, rfl⟩]
      by_cases room : y.exponent + s ≤ 2045
      · obtain ⟨finite', exact⟩ := scaled_product small finite room
        rw [← exact]
        exact taken?_of_whole (Binary64.holds_roundEven finite').finite
          (Binary64.scaled_roundEven finite')
      · obtain ⟨infinite, none⟩ := raw?_of_large small finite (by omega)
        rw [none, taken?_of_not_isFinite (Binary64.isFinite_roundEven infinite)]
  · rw [if_pos (Nat.lt_of_not_le small), if_neg (by simp [small])]

/-- **The number is found in doubles**: `ofBinary64InDoubles` is
`ofBinary64`. -/
theorem ofBinary64InDoubles_eq (y : Binary64) (scale : UInt32) :
    ofBinary64InDoubles y scale = ofBinary64 y scale := by
  rw [ofBinary64InDoubles, rawInDoubles?_eq, ofBinary64]

/-! ## The nearest raw value -/

/-- **The raw value of a double.** The double is finite, the `scale` is one that
numbers can be computed at, and the integer that is nearest to the double times
the power of two fits 64 bits. -/
structure IsRawOfDouble (y : Binary64) (scale : Nat) (r : Int) : Prop where
  finite : y.isFinite = true
  scale_le : scale ≤ 126
  nearest : IsNearestEven (y.value * 2 ^ scale) r
  fits : -2 ^ 63 ≤ r ∧ r < 2 ^ 63

/-- The scaled double, in units: `divHalfEven` finds the integer nearest to
it. -/
theorem isNearestEven_value_iff {s : Nat} {r : Int} : IsNearestEven (y.value * 2 ^ s) r ↔
    divHalfEven (y.scaled * 2 ^ s) unitsPerOne = r := by
  have units : (y.value * 2 ^ s : ℚ) = (y.scaled * 2 ^ s : Int) / (unitsPerOne : Int) := by
    rw [Binary64.value_eq, div_mul_eq_mul_div]
    push_cast
    rfl
  rw [units]
  exact isNearestEven_div_iff (Int.natCast_pos.2 unitsPerOne_pos)

theorem ofBinary64_eq_ok_iff_isRaw {x : Fixed} : ofBinary64 y scale = .ok x ↔
    IsRawOfDouble y scale.toNat x.raw.toInt ∧ x.scale = scale := by
  rw [ofBinary64_eq_ok_iff, eq_comm (a := x.raw.toInt), ← isNearestEven_value_iff]
  constructor
  · rintro ⟨same, small, finite, nearest⟩
    exact ⟨⟨finite, small, nearest, x.raw.le_toInt, x.raw.toInt_lt⟩, same⟩
  · rintro ⟨⟨finite, small, nearest, -⟩, same⟩
    exact ⟨same, small, finite, nearest⟩

/-- A double and a ratio of the same value (`same`) give the same number, if the
ratio gives one. -/
theorem ofBinary64_of_ofRatio {n : Int} {k : Nat} {x : Fixed} (finite : y.isFinite = true)
    (same : y.value = n / 2 ^ k) (wide : IsWide (2 ^ k)) (h : ofRatio n (2 ^ k) scale = .ok x) :
    ofBinary64 y scale = .ok x := by
  obtain ⟨found, at_scale⟩ := ofRaw?_eq_ok_iff.1 h
  obtain ⟨-, small, -, -, nearest, fits⟩ := (rawOfRatio?_eq_some_iff wide).1 found
  have value : (y.value * 2 ^ scale.toNat : ℚ) = (n * 2 ^ scale.toNat : Int) / (2 ^ k : Int) := by
    rw [same, div_mul_eq_mul_div]
    push_cast
    rfl
  exact ofBinary64_eq_ok_iff_isRaw.2 ⟨⟨finite, small, value ▸ nearest, fits⟩, at_scale⟩

/-- **The number that a double gives.** The double times the power of two
has one nearest integer, with a half going to the even neighbour. The double
gives the number with this raw value and the scale exactly if it is finite,
the scale is at most 126 and the integer fits 64 bits (`IsRawOfDouble`), and
an overflow otherwise. A ratio of the same value gives the same number, if
it gives one. The number is found in doubles, with one step that rounds
(`ofBinary64InDoubles`). -/
theorem ofBinary64_exact (y : Binary64) (scale : UInt32) :
    (∃! r, IsNearestEven (y.value * 2 ^ scale.toNat) r) ∧
    (∀ x, ofBinary64 y scale = .ok x ↔
      IsRawOfDouble y scale.toNat x.raw.toInt ∧ x.scale = scale) ∧
    ((∀ r, ¬ IsRawOfDouble y scale.toNat r) →
      ofBinary64 y scale = .error (.overflow (.double y))) ∧
    (∀ (n : Int) (k : Nat), y.isFinite = true → y.value = n / 2 ^ k → IsWide (2 ^ k) →
      ∀ x, ofRatio n (2 ^ k) scale = .ok x → ofBinary64 y scale = .ok x) ∧
    ofBinary64InDoubles y scale = ofBinary64 y scale := by
  refine ⟨existsUnique_isNearestEven _, fun x => ofBinary64_eq_ok_iff_isRaw, fun none => ?_,
    fun n k finite same wide x given => ofBinary64_of_ofRatio finite same wide given,
    ofBinary64InDoubles_eq y scale⟩
  cases found : ofBinary64 y scale with
  | ok x => exact absurd (ofBinary64_eq_ok_iff_isRaw.1 found).1 (none _)
  | error fault => rw [← (ofRaw?_eq_error_iff.1 found).2]

/-- A tie between two negative neighbours, the least raw value, its absolute
value, which is none, and one and a half, which is a ratio. -/
theorem ofBinary64_exact_limits :
    let tie : Binary64 := ⟨0xC004000000000000⟩
    let least : Binary64 := ⟨0xC3E0000000000000⟩
    let above : Binary64 := ⟨0x43E0000000000000⟩
    let ratio : Binary64 := ⟨0x3FF8000000000000⟩
    (ofBinary64 tie 0 = .ok ⟨-2, 0⟩ ∧ IsRawOfDouble tie 0 (-2)) ∧
    (ofBinary64 least 0 = .ok ⟨-2 ^ 63, 0⟩ ∧ IsRawOfDouble least 0 (-2 ^ 63)) ∧
    ((∀ r, ¬ IsRawOfDouble above 0 r) ∧
      ofBinary64InDoubles above 0 = .error (.overflow (.double above))) ∧
    ofRatio 3 (2 ^ 1) 62 = .ok ⟨3 * 2 ^ 61, 62⟩ ∧ ofBinary64 ratio 62 = .ok ⟨3 * 2 ^ 61, 62⟩ := by
  intro tie least above ratio
  have even : ofBinary64 tie 0 = .ok ⟨-2, 0⟩ := by decide +kernel
  have accepted : ofBinary64 least 0 = .ok ⟨-2 ^ 63, 0⟩ := by decide +kernel
  have refused : ofBinary64 above 0 = .error (.overflow (.double above)) := by decide +kernel
  have quotient : ofRatio 3 (2 ^ 1) 62 = .ok ⟨3 * 2 ^ 61, 62⟩ := by decide +kernel
  have value : ratio.value = (3 : Int) / 2 ^ 1 := by
    have sign : ratio.isNegative = false := by decide
    have field : ratio.exponentField = 1023 := by decide
    have fraction : ratio.fraction = 2 ^ 51 := by decide
    rw [Binary64.value, sign, field, fraction]
    norm_num
  obtain ⟨-, given, -⟩ := ofBinary64_exact tie 0
  obtain ⟨-, given', -⟩ := ofBinary64_exact least 0
  obtain ⟨-, given'', -, -, doubles⟩ := ofBinary64_exact above 0
  obtain ⟨-, -, -, agrees, -⟩ := ofBinary64_exact ratio 62
  have none (r : Int) : ¬ IsRawOfDouble above 0 r := by
    intro raw
    have whole : (Int64.ofInt r).toInt = r := Int64.toInt_ofInt_of_le raw.fits.1 raw.fits.2
    cases refused.symm.trans ((given'' ⟨.ofInt r, 0⟩).2 ⟨by rwa [whole], rfl⟩)
  have lowest : IsRawOfDouble least 0 (-2 ^ 63 : Int64).toInt := ((given' _).1 accepted).1
  rw [show (-2 ^ 63 : Int64).toInt = -2 ^ 63 by decide +kernel] at lowest
  exact ⟨⟨even, ((given _).1 even).1⟩, ⟨accepted, lowest⟩,
    ⟨none, doubles.trans refused⟩, quotient,
    agrees 3 1 (by decide) value (by unfold IsWide; decide) _ quotient⟩

end FeltWire.Fixed

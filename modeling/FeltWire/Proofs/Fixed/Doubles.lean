import FeltWire.Fixed.Arithmetic
import FeltWire.Proofs.Binary64.Nearest

/-!
# Fixed-point numbers and doubles

A double has 53 significant bits and a raw value 63, so not every fixed-point
number survives being shown as a double. Those do that a double can be made
into: their raw values are whole numbers of at most 53 bits times a power of
two.

## Main definitions

* `Fixed.FitsDouble`: a raw value that a double has room for

## Main results

* `ofBinary64_eq_ok_iff`: which number a double gives
* `fitsDouble_of_ofBinary64`: what a double gives fits one
* `scaled_toBinary64`: what fits a double is exactly its double
* `ofBinary64_toBinary64`: what fits a double is given back by it, and so is
  what a double gave
-/

namespace FeltWire.Fixed

variable {x : Fixed} {y : Binary64} {scale : UInt32}

/-! ## Which number a double gives -/

theorem raw?_eq_some_iff {v : Int} {raw : Int64} : raw? v = some raw ↔ raw.toInt = v := by
  have low := raw.le_toInt
  have high := raw.toInt_lt
  unfold raw?
  constructor
  · intro h
    split at h
    · next fits =>
      cases h
      exact Int64.toInt_ofInt_of_le fits.1 fits.2
    · cases h
  · rintro rfl
    rw [if_pos ⟨low, high⟩, Int64.ofInt_toInt]

theorem ofRaw?_eq_ok_iff {raw : Option Int64} {attempt : Attempt} :
    ofRaw? raw scale attempt = .ok x ↔ raw = some x.raw ∧ x.scale = scale := by
  obtain ⟨raw', scale'⟩ := x
  cases raw <;> simp [ofRaw?, eq_comm]

theorem ofRaw?_eq_error_iff {raw : Option Int64} {attempt : Attempt} {fault : Fault} :
    ofRaw? raw scale attempt = .error fault ↔ raw = none ∧ .overflow attempt = fault := by
  cases raw <;> simp [ofRaw?]

theorem rawOfBinary64?_eq_some_iff {s : Nat} {raw : Int64} : rawOfBinary64? y s = some raw ↔
    s ≤ maxScale ∧ y.isFinite = true ∧
      raw.toInt = divHalfEven (y.scaled * 2 ^ s) Binary64.unitsPerOne := by
  unfold rawOfBinary64?
  split
  · next h => rw [raw?_eq_some_iff, and_iff_right h.1, and_iff_right h.2]
  · next h =>
    constructor
    · rintro ⟨⟩
    · rintro ⟨small, finite, -⟩
      exact absurd ⟨small, finite⟩ h

/-- **The number that a double gives** at a `scale` of at most `maxScale`: its
raw value is the nearest integer. -/
theorem ofBinary64_eq_ok_iff : ofBinary64 y scale = .ok x ↔
    x.scale = scale ∧ scale.toNat ≤ maxScale ∧ y.isFinite = true ∧
      x.raw.toInt = divHalfEven (y.scaled * 2 ^ scale.toNat) Binary64.unitsPerOne := by
  rw [ofBinary64, ofRaw?_eq_ok_iff, rawOfBinary64?_eq_some_iff, and_comm]

/-! ## Room in a double -/

/-- **The raw value has room in a double**: it is a whole number of at most
`2 ^ 53` times a power of two. -/
def FitsDouble (x : Fixed) : Prop := ∃ m e : Nat, m ≤ 2 ^ 53 ∧ x.raw.toInt.natAbs = m * 2 ^ e

/-- **What a double gives fits a double**: the nearest integer has no more bits
than the double (`FitsDouble`). -/
theorem fitsDouble_of_ofBinary64 (h : ofBinary64 y scale = .ok x) : x.FitsDouble := by
  obtain ⟨-, -, -, raw⟩ := ofBinary64_eq_ok_iff.1 h
  have size : (y.scaled * 2 ^ scale.toNat).natAbs =
      y.significand * 2 ^ (y.exponent + scale.toNat) := by
    rw [Int.natAbs_mul, Binary64.natAbs_scaled, Int.natAbs_pow, Binary64.magnitude, Nat.pow_add]
    exact Nat.mul_assoc ..
  obtain ⟨m, e, few, -, whole⟩ := Binary64.exists_significand_divHalfEven y.significand_lt size
  exact ⟨m, e, Nat.le_of_lt few, raw ▸ whole⟩

/-! ## What fits is given back -/

/-- A raw value that fits is a whole number of fewer than 54 bits times a
moderate power of two. A carry to `2 ^ 53` is one bit at the next place. -/
theorem FitsDouble.exists_significand (h : x.FitsDouble) :
    ∃ m e : Nat, m < 2 ^ 53 ∧ e ≤ 63 ∧ x.raw.toInt.natAbs = m * 2 ^ e := by
  obtain ⟨m, e, few, whole⟩ := h
  have low := x.raw.le_toInt
  have high := x.raw.toInt_lt
  have bounded {m e : Nat} (positive : 0 < m) (whole : x.raw.toInt.natAbs = m * 2 ^ e) :
      e ≤ 63 := by
    refine (Nat.pow_le_pow_iff_right (a := 2) (by decide)).1 ?_
    calc 2 ^ e ≤ m * 2 ^ e := Nat.le_mul_of_pos_left _ positive
      _ = x.raw.toInt.natAbs := whole.symm
      _ ≤ 2 ^ 63 := by omega
  rcases Nat.eq_zero_or_pos m with rfl | positive
  · exact ⟨0, 0, by decide, by decide, by simpa using whole⟩
  rcases Nat.lt_or_eq_of_le few with few | rfl
  · exact ⟨m, e, few, bounded positive whole, whole⟩
  · have carried : x.raw.toInt.natAbs = 2 ^ 52 * 2 ^ (e + 1) := by
      rw [whole, ← Nat.pow_add, ← Nat.pow_add]
      congr 1
      omega
    exact ⟨2 ^ 52, e + 1, by decide, bounded (by decide) carried, carried⟩

/-- At scales below 1024 the double is the `nearest` to the quotient, of the raw
value and a power of two. -/
theorem toBinary64_eq (small : x.scale.toNat < 1024) : x.toBinary64 =
    .nearest (x.raw.toInt < 0) x.raw.toInt.natAbs (2 ^ x.scale.toNat) := by
  have exponent : exponentOf x.scale = x.scale.toNat := by
    unfold exponentOf
    rw [Int.bmod_eq_of_le] <;> omega
  have none : (-(x.scale.toNat : Int)).toNat = 0 := by omega
  unfold toBinary64
  simp only [exponent]
  rw [if_neg (by omega), if_neg (by omega), none, Int.toNat_natCast, Nat.pow_zero, Nat.mul_one]

/-- **What fits a double is exactly its double**, which is finite: `scaled` is
the raw value in units, brought to the scale. -/
theorem scaled_toBinary64 (small : x.scale.toNat ≤ maxScale) (fits : x.FitsDouble) :
    x.toBinary64.isFinite = true ∧
      x.toBinary64.scaled * 2 ^ x.scale.toNat = x.raw.toInt * Binary64.unitsPerOne := by
  obtain ⟨m, e, few, moderate, whole⟩ := fits.exists_significand
  obtain ⟨k, hk, units⟩ := Binary64.exists_unitsPerOne
  have below : x.scale.toNat ≤ 126 := small
  have exact : x.raw.toInt.natAbs * Binary64.unitsPerOne =
      m * 2 ^ (e + (k - x.scale.toNat)) * 2 ^ x.scale.toNat := by
    rw [units, whole, Nat.mul_assoc, Nat.mul_assoc, ← Nat.pow_add, ← Nat.pow_add, Nat.add_assoc,
      Nat.sub_add_cancel (by omega)]
  obtain ⟨finite, sign, magnitude⟩ := Binary64.nearest_of_exact (x.raw.toInt < 0)
    (Nat.two_pow_pos _) exact few (by omega)
  rw [← magnitude] at exact
  rw [← toBinary64_eq (by omega)] at finite sign exact
  have product : (x.toBinary64.magnitude : Int) * 2 ^ x.scale.toNat =
      x.raw.toInt.natAbs * Binary64.unitsPerOne := by exact_mod_cast exact.symm
  refine ⟨finite, ?_⟩
  unfold Binary64.scaled
  rw [sign]
  by_cases negative : x.raw.toInt < 0
  · have absolute : x.raw.toInt = -x.raw.toInt.natAbs := by omega
    rw [if_pos (decide_eq_true negative), absolute, Int.neg_mul, Int.neg_mul, product]
  · have absolute : x.raw.toInt = x.raw.toInt.natAbs := by omega
    rw [if_neg (by simpa using negative), absolute, product]

/-- **What fits a double is given back by it** at its own scale, and the double
is finite. -/
theorem ofBinary64_toBinary64 (small : x.scale.toNat ≤ maxScale) (fits : x.FitsDouble) :
    x.toBinary64.isFinite = true ∧ ofBinary64 x.toBinary64 x.scale = .ok x := by
  obtain ⟨finite, scaled⟩ := scaled_toBinary64 small fits
  refine ⟨finite, ofBinary64_eq_ok_iff.2 ⟨rfl, small, finite, ?_⟩⟩
  rw [scaled, divHalfEven_mul _ (Int.natCast_pos.2 Binary64.unitsPerOne_pos)]

/-- What a double `y` gives is given back by its own double, whatever `y` was
rounded from. -/
theorem ofBinary64_toBinary64_of_ofBinary64 (h : ofBinary64 y scale = .ok x) :
    x.toBinary64.isFinite = true ∧ ofBinary64 x.toBinary64 x.scale = .ok x := by
  obtain ⟨rfl, small, -, -⟩ := ofBinary64_eq_ok_iff.1 h
  exact ofBinary64_toBinary64 small (fitsDouble_of_ofBinary64 h)

end FeltWire.Fixed

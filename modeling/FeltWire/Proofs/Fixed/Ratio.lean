import FeltWire.Proofs.Fixed.Doubles
import FeltWire.Proofs.Rounding

/-!
# Fixed-point numbers from ratios

The number that a ratio gives has the raw value nearest to the scaled ratio. The
ratio is brought to a positive denominator first, and each step on the way is
tested: the numerator has to fit 128 bits once it is scaled, and the least
integer of 128 bits, which has no negation, may not stand where the signs are
changed. After these tests nothing can go wrong any more, so that the division
needs none.

## Main definitions

* `dividend?`: the scaled numerator and the denominator that are divided, the
  denominator positive
* `ofRatioWide?`: the number that a ratio gives, found in 128 bits
* `IsRawOfRatio`: the raw value of a ratio, where it and what it is found from
  fit their widths

## Main results

* `rawOfRatio?_eq`: the tests come first and the division after them
* `dividend?_eq_some_iff`, `Divides.of_dividend?`: when the tests pass, and what
  is divided then
* `ofRatioWide?_eq`: the number is found in 128 bits
* `ofRatio_exact`: which number a ratio gives, and that it gives an overflow
  otherwise
-/

namespace FeltWire.Fixed

variable {n m power : Int} {scale : Nat}

/-! ## What is divided -/

/-- **What is divided**: the scaled numerator `n * power` and the denominator
`m`, both negated if the denominator is negative. Each step is tested by
`wide?`. -/
def dividend? (n m power : Int) : Option (Int × Int) := do
  let scaled ← wide? (n * power)
  if m < 0 then
    let scaled ← wide? (-scaled)
    let denominator ← wide? (-m)
    return (scaled, denominator)
  else
    return (scaled, m)

/-- The tests of `dividend?` come first and the division after them. -/
theorem rawOfRatio?_eq (n m : Int) (scale : Nat) :
    rawOfRatio? n m scale = (do
      guard (m ≠ 0 ∧ scale ≤ maxScale)
      let divided ← dividend? n m (2 ^ scale)
      raw? (divHalfEven divided.1 divided.2)) := by
  unfold rawOfRatio? dividend?
  by_cases negative : m < 0
  · simp only [if_pos negative, Option.bind_eq_bind, Option.bind_assoc, Option.pure_def,
      Option.bind_some]
  · simp only [if_neg negative, Option.bind_eq_bind, Option.bind_assoc, Option.pure_def,
      Option.bind_some]

/-- The least integer of 128 bits, `-2 ^ 127`, is the only one without a
negation. -/
theorem isWide_neg_iff {v : Int} (h : IsWide v) : IsWide (-v) ↔ v ≠ -2 ^ 127 := by
  unfold IsWide at *
  omega

/-- **When the tests pass**, and what is `divided` then. The numerator is
negated first, and the denominator only if that has gone well. -/
theorem dividend?_eq_some_iff (hm : IsWide m) {divided : Int × Int} :
    dividend? n m power = some divided ↔
      IsWide (n * power) ∧ (m < 0 → m ≠ -2 ^ 127 ∧ n * power ≠ -2 ^ 127) ∧
        (if m < 0 then (-(n * power), -m) else (n * power, m)) = divided := by
  unfold dividend?
  by_cases wide : IsWide (n * power)
  · rw [wide?_of_isWide wide]
    by_cases negative : m < 0
    · simp only [wide, negative, if_true, true_and, true_imp_iff, Option.bind_eq_bind,
        Option.bind_some]
      rw [← isWide_neg_iff hm, ← isWide_neg_iff wide]
      by_cases numerator : IsWide (-(n * power))
      · by_cases denominator : IsWide (-m)
        · simp [wide?_of_isWide, numerator, denominator]
        · simp [wide?_of_isWide numerator, wide?_of_not_isWide denominator, denominator]
      · simp [wide?_of_not_isWide numerator, numerator]
    · simp [negative, wide]
  · simp [wide?_of_not_isWide wide, wide]

/-- A numerator and a positive denominator of 128 bits that have the ratio of
`n * power` to `m`. -/
structure Divides (n m power : Int) (divided : Int × Int) : Prop where
  positive : 0 < divided.2
  numerator : IsWide divided.1
  denominator : IsWide divided.2
  ratio : (divided.1 / divided.2 : ℚ) = (n * power : Int) / m

/-- What passes the tests of `dividend?` can be divided. -/
theorem Divides.of_dividend? (hm : IsWide m) (nonzero : m ≠ 0) {divided : Int × Int}
    (h : dividend? n m power = some divided) : Divides n m power divided := by
  obtain ⟨wide, negatable, rfl⟩ := (dividend?_eq_some_iff hm).1 h
  by_cases negative : m < 0
  · obtain ⟨least, least'⟩ := negatable negative
    rw [if_pos negative]
    refine ⟨Int.neg_pos_of_neg negative, (isWide_neg_iff wide).2 least',
      (isWide_neg_iff hm).2 least, ?_⟩
    rw [Int.cast_neg, Int.cast_neg, neg_div_neg_eq]
  · rw [if_neg negative]
    exact ⟨by omega, wide, hm, rfl⟩

/-! ## In 128 bits -/

/-- **The number that a ratio gives, found in 128 bits**, step by step as in
`ofRatio`. A step that is tested gives an overflow if it leaves them; there is
no outcome at all if any other step leaves them or divides by zero. -/
def ofRatioWide? (n m : Int) (scale : UInt32) : Option (Except Fault Fixed) :=
  if m = 0 ∨ maxScale < scale.toNat then some (.error (.overflow (.ratio n m)))
  else do
    let power ← wide? (2 ^ scale.toNat)
    match dividend? n m power with
    | none => return .error (.overflow (.ratio n m))
    | some divided =>
      let raw ← divHalfEvenWide? divided.1 divided.2
      return ofRaw? (raw? raw) scale (.ratio n m)

/-- The powers of two that numbers are scaled by, up to `maxScale`, fit 128
bits. -/
theorem isWide_two_pow (small : scale ≤ maxScale) : IsWide (2 ^ scale) := by
  have power : 2 ^ scale ≤ 2 ^ 126 := Nat.pow_le_pow_right (by decide) small
  have power' : (2 : Int) ^ scale ≤ 2 ^ 126 := by exact_mod_cast power
  have positive : (0 : Int) < 2 ^ scale := Int.pow_pos (by decide)
  unfold IsWide
  omega

/-- **No step leaves 128 bits or divides by zero**, except where this is an
overflow: `ofRatioWide?` always has the outcome of `ofRatio`. Only the dividend
is tested, and what has passed leaves nothing for the division to fail at. -/
theorem ofRatioWide?_eq (hm : IsWide m) (scale : UInt32) :
    ofRatioWide? n m scale = some (ofRatio n m scale) := by
  unfold ofRatioWide? ofRatio
  rw [rawOfRatio?_eq]
  by_cases bad : m = 0 ∨ maxScale < scale.toNat
  · have refused : (guard (m ≠ 0 ∧ scale.toNat ≤ maxScale) : Option Unit) = none :=
      if_neg (by omega)
    rw [if_pos bad, refused]
    rfl
  · obtain ⟨nonzero, small⟩ : m ≠ 0 ∧ scale.toNat ≤ maxScale := by omega
    have passed : (guard (m ≠ 0 ∧ scale.toNat ≤ maxScale) : Option Unit) = some () :=
      if_pos ⟨nonzero, small⟩
    simp only [if_neg bad, passed, wide?_of_isWide (isWide_two_pow small), Option.bind_eq_bind,
      Option.bind_some]
    cases found : dividend? n m (2 ^ scale.toNat) with
    | none => rfl
    | some divided =>
      have divides := Divides.of_dividend? hm nonzero found
      simp only [divHalfEvenWide?_eq divides.numerator divides.positive divides.denominator,
        Option.bind_some, Option.pure_def]

/-! ## The nearest number -/

/-- **The raw value of a ratio at a scale**: the integer nearest to the scaled
ratio (`IsNearestEven`), where it and what it is found from fit their widths. -/
structure IsRawOfRatio (n m : Int) (scale : Nat) (r : Int) : Prop where
  nonzero : m ≠ 0
  scale_le : scale ≤ 126
  /-- The scaled numerator fits 128 bits. -/
  scaled : -2 ^ 127 ≤ n * 2 ^ scale ∧ n * 2 ^ scale < 2 ^ 127
  /-- What is negated is not the least integer of 128 bits. -/
  negatable : m < 0 → m ≠ -2 ^ 127 ∧ n * 2 ^ scale ≠ -2 ^ 127
  nearest : IsNearestEven ((n * 2 ^ scale : Int) / m) r
  /-- The result fits 64 bits. -/
  fits : -2 ^ 63 ≤ r ∧ r < 2 ^ 63

theorem raw?_divHalfEven_eq_some_iff {divided : Int × Int} (h : Divides n m power divided)
    {raw : Int64} : raw? (divHalfEven divided.1 divided.2) = some raw ↔
      IsNearestEven ((n * power : Int) / m) raw.toInt := by
  rw [raw?_eq_some_iff, ← h.ratio, isNearestEven_div_iff h.positive, eq_comm]

theorem rawOfRatio?_eq_some_iff (hm : IsWide m) {raw : Int64} :
    rawOfRatio? n m scale = some raw ↔ IsRawOfRatio n m scale raw.toInt := by
  rw [rawOfRatio?_eq]
  constructor
  · intro h
    obtain ⟨⟨⟩, passed, h⟩ := Option.bind_eq_some_iff.1 h
    obtain ⟨divided, found, rounded⟩ := Option.bind_eq_some_iff.1 h
    obtain ⟨nonzero, small⟩ : m ≠ 0 ∧ scale ≤ maxScale := by simpa using passed
    obtain ⟨wide, negatable, -⟩ := (dividend?_eq_some_iff hm).1 found
    have divides := Divides.of_dividend? hm nonzero found
    exact ⟨nonzero, small, wide, negatable, (raw?_divHalfEven_eq_some_iff divides).1 rounded,
      raw.le_toInt, raw.toInt_lt⟩
  · rintro ⟨nonzero, small, wide, negatable, nearest, -⟩
    have found := (dividend?_eq_some_iff hm).2 ⟨wide, negatable, rfl⟩
    have divides := Divides.of_dividend? hm nonzero found
    have passed : (guard (m ≠ 0 ∧ scale ≤ maxScale) : Option Unit) = some () :=
      if_pos ⟨nonzero, small⟩
    rw [passed]
    exact Option.bind_eq_some_iff.2 ⟨(), rfl, Option.bind_eq_some_iff.2
      ⟨_, found, (raw?_divHalfEven_eq_some_iff divides).2 nearest⟩⟩

/-- **The number that a ratio gives.** A ratio of integers of 128 bits has one
nearest integer at each scale, with a half going to the even neighbour. The
ratio gives the number with this raw value exactly if the value fits 64 bits and
the tested steps stay in 128 bits (`IsRawOfRatio`), and an overflow otherwise;
the other steps always stay in 128 bits and never divide by zero
(`ofRatioWide?`). -/
theorem ofRatio_exact (hm : IsWide m) (scale : UInt32) :
    (m ≠ 0 → ∃! r, IsNearestEven ((n * 2 ^ scale.toNat : Int) / m) r) ∧
    (∀ x, ofRatio n m scale = .ok x ↔ IsRawOfRatio n m scale.toNat x.raw.toInt ∧ x.scale = scale) ∧
    ((∀ r, ¬ IsRawOfRatio n m scale.toNat r) →
      ofRatio n m scale = .error (.overflow (.ratio n m))) ∧
    ofRatioWide? n m scale = some (ofRatio n m scale) := by
  refine ⟨fun _ => existsUnique_isNearestEven _, fun x => ?_, fun none => ?_,
    ofRatioWide?_eq hm scale⟩
  · rw [← rawOfRatio?_eq_some_iff hm]
    obtain ⟨raw, scale'⟩ := x
    cases found : rawOfRatio? n m scale.toNat <;> simp [ofRatio, ofRaw?, found, eq_comm]
  · cases found : rawOfRatio? n m scale.toNat with
    | none => rw [ofRatio, found, ofRaw?]
    | some raw => exact absurd ((rawOfRatio?_eq_some_iff hm).1 found) (none _)

/-- A tie between two negative neighbours, and a numerator without a
negation. -/
theorem ofRatio_exact_signs :
    (IsWide (-2) ∧ ofRatio 5 (-2) 0 = .ok ⟨-2, 0⟩ ∧ IsRawOfRatio 5 (-2) 0 (-2)) ∧
    IsWide (-1) ∧ (∀ r, ¬ IsRawOfRatio (-2 ^ 127) (-1) 0 r) ∧
      ofRatio (-2 ^ 127) (-1) 0 = .error (.overflow (.ratio (-2 ^ 127) (-1))) ∧
      ofRatioWide? (-2 ^ 127) (-1) 0 = some (.error (.overflow (.ratio (-2 ^ 127) (-1)))) := by
  have tie : ofRatio 5 (-2) 0 = .ok ⟨-2, 0⟩ := by decide
  have small : IsWide (-2) := by unfold IsWide; decide
  have one : IsWide (-1) := by unfold IsWide; decide
  have none (r : Int) : ¬ IsRawOfRatio (-2 ^ 127) (-1) 0 r := fun h =>
    (h.negatable (by decide)).2 (by decide)
  obtain ⟨-, given, -⟩ := ofRatio_exact (n := 5) small 0
  obtain ⟨-, -, refused, wide⟩ := ofRatio_exact (n := -2 ^ 127) one 0
  exact ⟨⟨small, tie, ((given _).1 tie).1⟩, one, none, refused none, refused none ▸ wide⟩

end FeltWire.Fixed

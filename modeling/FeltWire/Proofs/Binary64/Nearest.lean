import FeltWire.Binary64
import FeltWire.Proofs.Rounding.Laws
import Mathlib.Tactic.Positivity
import Mathlib.Tactic.Ring

/-!
# Rounding to doubles

A double is read from its bits as a significand of at most 53 bits times a power
of two, in units of `2 ^ -1074`. A quotient is rounded to a multiple of the unit
in the last place that its leading one has, or of the least unit if it is too
small for a leading one. The unit and the multiple are all that its nearest
double is put together from, and so what is known of the two is known of the
double: a quotient of at most 53 significant bits is not rounded at all,
quotients of one value are rounded alike, and a quotient that passes the
greatest double is infinite.

## Main definitions

* `Binary64.Holds`: a double is finite, with a given sign and absolute value
* `Binary64.Rounds`: the grid that a number is rounded on, and the multiple that
  it is rounded to

## Main results

* `magnitude_ofParts`: the absolute value of a double that is put together from
  its parts; a significand of 54 bits carries over into the exponent
* `exists_rounds`, `Rounds.nearest_eq`: how a quotient is rounded
* `nearest_of_exact`: a quotient of at most 53 significant bits is its own
  nearest double
* `nearest_congr`: quotients of one value have the same nearest double
* `isFinite_nearest`, `nearest_of_large`: quotients that have a finite double,
  and infinite ones
* `exists_significand_divHalfEven`: the nearest integer to a double has at most
  53 bits, too
-/

namespace FeltWire.Binary64

variable {negative : Bool} {rest num den num' den' m k e s : Nat} {q : ℚ}

/-! ## Units -/

/-- The number of units in one, with an exponent `k` that no step evaluates the
power of. -/
theorem exists_unitsPerOne : ∃ k, k = 1074 ∧ unitsPerOne = 2 ^ k := by
  refine ⟨1074, rfl, ?_⟩
  rfl

theorem unitsPerOne_pos : 0 < unitsPerOne := by
  obtain ⟨k, -, units⟩ := exists_unitsPerOne
  rw [units]
  exact Nat.two_pow_pos k

/-! ## The parts of a number -/

theorem toNat_bits_ofParts (h : rest < 2 ^ 63) :
    (ofParts negative rest).bits.toNat = negative.toNat * 2 ^ 63 + rest := by
  have sign := negative.toNat_le
  rw [ofParts, UInt64.toNat_ofNat', Nat.mod_eq_of_lt (by omega)]

theorem isNegative_ofParts (h : rest < 2 ^ 63) : (ofParts negative rest).isNegative = negative := by
  rw [isNegative, toNat_bits_ofParts h]
  cases negative <;> simp [h]

theorem exponentField_ofParts (h : rest < 2 ^ 63) :
    (ofParts negative rest).exponentField = rest / 2 ^ 52 := by
  rw [exponentField, toNat_bits_ofParts h]
  omega

theorem fraction_ofParts (h : rest < 2 ^ 63) :
    (ofParts negative rest).fraction = rest % 2 ^ 52 := by
  rw [fraction, toNat_bits_ofParts h]
  omega

theorem isFinite_ofParts (h : rest < 2047 * 2 ^ 52) : (ofParts negative rest).isFinite = true := by
  rw [isFinite, exponentField_ofParts (by omega), decide_eq_true_eq]
  omega

/-- **The absolute value of a number that is put together** by `ofParts`. A
significand of `2 ^ 53` is that of the next exponent: it moves up by one, and
the leading one is all of the significand. -/
theorem magnitude_ofParts {exponent significand : Nat}
    (h : exponent * 2 ^ 52 + significand < 2 ^ 63) (few : significand ≤ 2 ^ 53)
    (normal : exponent = 0 ∨ 2 ^ 52 ≤ significand) :
    (ofParts negative (exponent * 2 ^ 52 + significand)).magnitude =
      significand * 2 ^ exponent := by
  rw [magnitude, Binary64.significand, Binary64.exponent, exponentField_ofParts h,
    fraction_ofParts h]
  by_cases subnormal : significand < 2 ^ 52
  · obtain rfl : exponent = 0 := normal.resolve_right (by omega)
    have field : (0 * 2 ^ 52 + significand) / 2 ^ 52 = 0 := by omega
    have low : (0 * 2 ^ 52 + significand) % 2 ^ 52 = significand := by omega
    rw [field, if_pos rfl, low]
  · by_cases carry : significand = 2 ^ 53
    · subst carry
      have field : (exponent * 2 ^ 52 + 2 ^ 53) / 2 ^ 52 = exponent + 2 := by omega
      have low : (exponent * 2 ^ 52 + 2 ^ 53) % 2 ^ 52 = 0 := by omega
      have double : 2 ^ (exponent + 1) = 2 ^ exponent * 2 := Nat.pow_succ ..
      rw [field, low, if_neg (by omega), show exponent + 2 - 1 = exponent + 1 from rfl, double]
      omega
    · have field : (exponent * 2 ^ 52 + significand) / 2 ^ 52 = exponent + 1 := by omega
      have low : (exponent * 2 ^ 52 + significand) % 2 ^ 52 = significand - 2 ^ 52 := by omega
      rw [field, low, if_neg (by omega), show exponent + 1 - 1 = exponent from rfl,
        Nat.add_sub_cancel' (by omega)]

/-- A finite number has at most 53 significant bits, its leading one
included. -/
theorem significand_lt (x : Binary64) : x.significand < 2 ^ 53 := by
  have low : x.fraction < 2 ^ 52 := Nat.mod_lt _ (by decide)
  rw [Binary64.significand]
  split <;> omega

theorem natAbs_scaled (x : Binary64) : x.scaled.natAbs = x.magnitude := by
  unfold scaled
  split <;> simp

/-- **A double holds a number**: it is finite, and has its sign and its absolute
value, which is given in `units` of `2 ^ -1074`. -/
structure Holds (x : Binary64) (negative : Bool) (units : Nat) : Prop where
  finite : x.isFinite = true
  sign : x.isNegative = negative
  magnitude : x.magnitude = units

theorem Holds.scaled {x : Binary64} {units : Nat} (h : x.Holds negative units) :
    x.scaled = if negative then -(units : Int) else units := by
  rw [Binary64.scaled, h.sign, h.magnitude]

/-! ## How a number is rounded -/

/-- **How a number `q` is rounded**, in units. It is cut at `2 ^ e`, the unit in
the last place of its leading one or the least one, and rounded there to the
multiple `s`. -/
structure Rounds (q : ℚ) (e s : Nat) : Prop where
  leading : e = 0 ∨ 2 ^ (52 + e) ≤ q
  below : q < 2 ^ (53 + e)
  rounded : IsNearestEven (q / 2 ^ e) s

namespace Rounds

/-- The multiple `s` has at most 53 bits, or it is one more than the greatest of
these. -/
theorem few (h : Rounds q e s) : s ≤ 2 ^ 53 := by
  have below : q / 2 ^ e ≤ (2 ^ 53 : Int) := by
    rw [div_le_iff₀ (by positivity), Int.cast_pow, Int.cast_ofNat, ← pow_add]
    exact h.below.le
  exact_mod_cast h.rounded.mono (isNearestEven_intCast (2 ^ 53)) below

/-- The multiple `s` has its leading one, unless the unit is the least. -/
theorem normal (h : Rounds q e s) : e = 0 ∨ 2 ^ 52 ≤ s := by
  refine h.leading.imp_right fun leading => ?_
  have above : (2 ^ 52 : Int) ≤ q / 2 ^ e := by
    rw [le_div_iff₀ (by positivity), Int.cast_pow, Int.cast_ofNat, ← pow_add]
    exact leading
  exact_mod_cast (isNearestEven_intCast (2 ^ 52)).mono h.rounded above

/-- A power of two that the number reaches (`above`) is at most that of the
leading one. -/
theorem lt_of_le {a : Nat} (h : Rounds q e s) (above : 2 ^ a ≤ q) : a < 53 + e :=
  (pow_lt_pow_iff_right₀ one_lt_two).1 (above.trans_lt h.below)

/-- A number with its `leading` one and a power of two are rounded to the same
multiple, of another unit. -/
theorem scale {i j e' : Nat} (h : Rounds q e s) (leading : 2 ^ (52 + e) ≤ q)
    (exponent : e' + j = e + i) : Rounds (q * 2 ^ i / 2 ^ j) e' s := by
  have power (c : Nat) : (2 : ℚ) ^ (c + e') * 2 ^ j = 2 ^ (c + e) * 2 ^ i := by
    rw [← pow_add, ← pow_add]
    congr 1
    omega
  have unit := power 0
  rw [Nat.zero_add, Nat.zero_add] at unit
  refine ⟨.inr ?_, ?_, ?_⟩
  · rw [le_div_iff₀ (by positivity), power]
    exact mul_le_mul_of_nonneg_right leading (by positivity)
  · rw [div_lt_iff₀ (by positivity), power]
    exact mul_lt_mul_of_pos_right h.below (by positivity)
  · rw [div_div, mul_comm (2 ^ j), unit, mul_div_mul_right _ _ (by positivity)]
    exact h.rounded

end Rounds

/-- A multiple of a unit is rounded to itself, if it has at most 53 bits
(`few`). -/
theorem rounds_mul (few : s < 2 ^ 53) (normal : e = 0 ∨ 2 ^ 52 ≤ s) :
    Rounds (s * 2 ^ e) e s := by
  refine ⟨normal.imp_right fun normal => ?_, ?_, ?_⟩
  · rw [pow_add]
    exact mul_le_mul_of_nonneg_right (by exact_mod_cast normal) (by positivity)
  · rw [pow_add]
    exact mul_lt_mul_of_pos_right (by exact_mod_cast few) (by positivity)
  · rw [mul_div_cancel_right₀ _ (by positivity)]
    exact_mod_cast isNearestEven_intCast s

/-- The number whose bits below the sign are `rest`, infinite if they are too
many. -/
def assembled (negative : Bool) (rest : Nat) : Binary64 :=
  if rest < 2047 * 2 ^ 52 then ofParts negative rest else infinity negative

theorem isFinite_infinity (negative : Bool) : (infinity negative).isFinite = false := by
  cases negative <;> decide

theorem isFinite_assembled_iff :
    (assembled negative rest).isFinite = true ↔ rest < 2047 * 2 ^ 52 := by
  unfold assembled
  by_cases room : rest < 2047 * 2 ^ 52
  · rw [if_pos room]
    exact iff_of_true (isFinite_ofParts room) room
  · rw [if_neg room, isFinite_infinity]
    exact iff_of_false Bool.false_ne_true room

/-- What is put together from a unit and a multiple (`assembled`), if it is
finite. The leading one that is left out of the fraction is even, and so is a
carry. -/
theorem Rounds.holds_assembled (h : Rounds q e s)
    (finite : (assembled negative (e * 2 ^ 52 + s)).isFinite = true) :
    (assembled negative (e * 2 ^ 52 + s)).Holds negative (s * 2 ^ e) ∧
      (Even s → Even (assembled negative (e * 2 ^ 52 + s)).significand) := by
  have room := isFinite_assembled_iff.1 finite
  have low : e * 2 ^ 52 + s < 2 ^ 63 := Nat.lt_trans room (by decide)
  have few := h.few
  have normal := h.normal
  rw [assembled, if_pos room]
  refine ⟨⟨isFinite_ofParts room, isNegative_ofParts low, magnitude_ofParts low few normal⟩, ?_⟩
  rw [significand, fraction_ofParts low, Nat.even_iff, Nat.even_iff]
  split <;> omega

/-! ## Quotients -/

/-- The quotient `num / den`, in units. -/
def quotient (num den : Nat) : ℚ := num * unitsPerOne / den

theorem le_quotient_iff {m : Nat} (pos : 0 < den) :
    m ≤ quotient num den ↔ m ≤ num * unitsPerOne / den := by
  rw [quotient, le_div_iff₀ (Nat.cast_pos.2 pos), Nat.le_div_iff_mul_le pos]
  exact_mod_cast Iff.rfl

theorem quotient_lt_iff {m : Nat} (pos : 0 < den) :
    quotient num den < m ↔ num * unitsPerOne / den < m := by
  rw [quotient, div_lt_iff₀ (Nat.cast_pos.2 pos), Nat.div_lt_iff_lt_mul pos]
  exact_mod_cast Iff.rfl

/-- A quotient in units of the last place, for which `divHalfEven` finds the
nearest integer. -/
theorem isNearestEven_quotient_iff (pos : 0 < den) : IsNearestEven (quotient num den / 2 ^ e) s ↔
    divHalfEven (num * unitsPerOne : Nat) (den * 2 ^ e : Nat) = s := by
  have positive : (0 : Int) < (den * 2 ^ e : Nat) :=
    Int.natCast_pos.2 (Nat.mul_pos pos (Nat.two_pow_pos e))
  rw [← isNearestEven_div_iff positive, quotient, div_div]
  push_cast
  rfl

/-- The unit of a quotient is that of its leading one, which `Nat.log2` finds.
Less than one unit has no leading one, and the logarithm zero. -/
theorem Rounds.log2_sub_eq (h : Rounds (quotient num den) e s) (pos : 0 < den) :
    (num * unitsPerOne / den).log2 - 52 = e := by
  have below : num * unitsPerOne / den < 2 ^ (53 + e) :=
    (quotient_lt_iff pos).1 (by exact_mod_cast h.below)
  have leading : e = 0 ∨ 2 ^ (52 + e) ≤ num * unitsPerOne / den :=
    h.leading.imp_right fun leading => (le_quotient_iff pos).1 (by exact_mod_cast leading)
  by_cases zero : num * unitsPerOne / den = 0
  · have least := leading.resolve_right (by rw [zero]; exact Nat.not_le.2 (Nat.two_pow_pos _))
    rw [zero, Nat.log2_zero, least]
  have high := (Nat.log2_lt zero).2 below
  have low := leading.imp_right (Nat.le_log2 zero).2
  omega

/-- **The nearest double is put together from the unit and the multiple** that
`Rounds` determines. -/
theorem Rounds.nearest_eq (h : Rounds (quotient num den) e s) (pos : 0 < den) (negative : Bool) :
    nearest negative num den = assembled negative (e * 2 ^ 52 + s) := by
  simp only [nearest, h.log2_sub_eq pos, (isNearestEven_quotient_iff pos).1 h.rounded,
    Int.toNat_natCast, assembled]

/-- **Every quotient is rounded so**: there are a unit `e` and a multiple
`s`. -/
theorem exists_rounds (num : Nat) (pos : 0 < den) : ∃ e s, Rounds (quotient num den) e s := by
  obtain ⟨e, he⟩ : ∃ e, (num * unitsPerOne / den).log2 - 52 = e := ⟨_, rfl⟩
  have positive : (0 : Int) < (den * 2 ^ e : Nat) :=
    Int.natCast_pos.2 (Nat.mul_pos pos (Nat.two_pow_pos e))
  obtain ⟨s, hs⟩ := Int.eq_ofNat_of_zero_le
    (divHalfEven_nonneg positive (Int.natCast_nonneg (num * unitsPerOne)))
  refine ⟨e, s, (Nat.eq_zero_or_pos e).imp_right fun normal => ?_, ?_,
    (isNearestEven_quotient_iff pos).2 hs⟩
  · have nonzero : num * unitsPerOne / den ≠ 0 := by
      intro zero
      rw [zero, Nat.log2_zero] at he
      omega
    have low := (Nat.le_log2 nonzero).1 (show 52 + e ≤ (num * unitsPerOne / den).log2 by omega)
    exact_mod_cast (le_quotient_iff pos).2 low
  · have high : num * unitsPerOne / den < 2 ^ (53 + e) :=
      Nat.lt_of_lt_of_le Nat.lt_log2_self (Nat.pow_le_pow_right (by decide) (by omega))
    exact_mod_cast (quotient_lt_iff pos).2 high

/-- Quotients of one value (`same`) have the same nearest double. -/
theorem nearest_congr (negative : Bool) (pos : 0 < den) (pos' : 0 < den')
    (same : num * den' = num' * den) : nearest negative num den = nearest negative num' den' := by
  have value : quotient num den = quotient num' den' := by
    have same' : num * unitsPerOne * den' = num' * unitsPerOne * den := by
      rw [Nat.mul_right_comm, same, Nat.mul_right_comm]
    rw [quotient, quotient, div_eq_div_iff (Nat.cast_pos.2 pos).ne' (Nat.cast_pos.2 pos').ne']
    exact_mod_cast same'
  obtain ⟨e, s, h⟩ := exists_rounds num pos
  have h' : Rounds (quotient num' den') e s := value ▸ h
  rw [h.nearest_eq pos, h'.nearest_eq pos']

/-! ## Exact quotients -/

/-- A natural number of at most 53 significant bits, with its leading one in
place or in least units. Where there is room for one more bit, it is taken from
the power. -/
theorem exists_significand (few : m < 2 ^ 53) (k : Nat) :
    ∃ e s, e ≤ k ∧ m * 2 ^ k = s * 2 ^ e ∧ s < 2 ^ 53 ∧ (e = 0 ∨ 2 ^ 52 ≤ s) := by
  induction k generalizing m with
  | zero => exact ⟨0, m, Nat.le_refl 0, rfl, few, .inl rfl⟩
  | succ k ih =>
    by_cases normal : 2 ^ 52 ≤ m
    · exact ⟨k + 1, m, Nat.le_refl _, rfl, few, .inr normal⟩
    -- room for one more bit, taken from the power
    · obtain ⟨e, s, le, whole, significand⟩ := ih (m := m * 2) (by omega)
      refine ⟨e, s, Nat.le_succ_of_le le, ?_, significand⟩
      rw [Nat.pow_succ', ← Nat.mul_assoc, whole]

/-- **A quotient of at most 53 significant bits is its own nearest double**, if
it is `bounded`. -/
theorem nearest_of_exact (negative : Bool) (pos : 0 < den)
    (exact : num * unitsPerOne = m * 2 ^ k * den) (few : m < 2 ^ 53) (bounded : k ≤ 2045) :
    (nearest negative num den).Holds negative (m * 2 ^ k) := by
  obtain ⟨e, s, le, whole, small, normal⟩ := exists_significand few k
  rw [whole] at exact ⊢
  have value : quotient num den = s * 2 ^ e := by
    rw [quotient, div_eq_iff (Nat.cast_pos.2 pos).ne']
    exact_mod_cast exact
  have h : Rounds (quotient num den) e s := value ▸ rounds_mul small normal
  have room : e * 2 ^ 52 + s < 2047 * 2 ^ 52 := by
    -- or else the power in `unitsPerOne` is evaluated
    clear exact
    omega
  rw [h.nearest_eq pos]
  exact (h.holds_assembled (isFinite_assembled_iff.2 room)).1

/-! ## Small and great quotients -/

/-- A quotient of less than `2 ^ 1023` has a finite double (`moderate`). -/
theorem isFinite_nearest {b : Nat} (moderate : b ≤ 1023) (pos : 0 < den)
    (small : num < 2 ^ b * den) : (nearest negative num den).isFinite = true := by
  obtain ⟨k, hk, units⟩ := exists_unitsPerOne
  obtain ⟨e, s, h⟩ := exists_rounds num pos
  have bounded : e < 2045 := by
    rcases h.leading with rfl | leading
    · decide
    have less : num * unitsPerOne / den < 2 ^ (b + k) := by
      rw [Nat.div_lt_iff_lt_mul pos, Nat.pow_add, ← units, Nat.mul_right_comm]
      exact Nat.mul_lt_mul_of_pos_right small unitsPerOne_pos
    have low : 2 ^ (52 + e) ≤ num * unitsPerOne / den :=
      (le_quotient_iff pos).1 (by exact_mod_cast leading)
    have powers := (Nat.pow_lt_pow_iff_right (by decide)).1 (Nat.lt_of_le_of_lt low less)
    omega
  have few := h.few
  rw [h.nearest_eq pos, isFinite_assembled_iff]
  omega

/-- A quotient of at least `2 ^ 1024` is rounded to the `infinity` of its sign:
its leading one keeps the exponent too great. -/
theorem nearest_of_large (pos : 0 < den) (hk : 2046 ≤ k)
    (large : 2 ^ (52 + k) * den ≤ num * unitsPerOne) :
    nearest negative num den = infinity negative := by
  obtain ⟨e, s, h⟩ := exists_rounds num pos
  have above : 2 ^ (52 + k) ≤ quotient num den := by
    exact_mod_cast (le_quotient_iff pos).2 ((Nat.le_div_iff_mul_le pos).2 large)
  have powers := h.lt_of_le above
  -- the exponent stays too great
  have normal := h.normal.resolve_left (by omega)
  rw [h.nearest_eq pos, assembled, if_neg (by omega)]

/-! ## Integers near to doubles -/

/-- **The nearest integer has no more bits**: next to a number of at most 53
significant bits, in units, it has at most 53 again. Either the number is
whole, or the bits below one are rounded off and at most a carry is left
above 53 bits. -/
theorem exists_significand_divHalfEven {v : Int} (few : m < 2 ^ 53)
    (whole : v.natAbs = m * 2 ^ k) :
    ∃ s e, s < 2 ^ 53 ∧ (e ≤ 1 ∨ e + 1074 ≤ k) ∧
      (divHalfEven v unitsPerOne).natAbs = s * 2 ^ e := by
  obtain ⟨u, hu, units⟩ := exists_unitsPerOne
  have positive : (0 : Int) < unitsPerOne := Int.natCast_pos.2 unitsPerOne_pos
  rw [← hu]
  clear hu
  by_cases exact : u ≤ k
  · have multiple : v.natAbs = m * 2 ^ (k - u) * unitsPerOne := by
      rw [whole, units, Nat.mul_assoc, ← Nat.pow_add, Nat.sub_add_cancel exact]
    obtain ⟨q, rfl⟩ := Int.ofNat_dvd_left.2 (multiple ▸ Nat.dvd_mul_left ..)
    rw [Int.natAbs_mul, Int.natAbs_natCast, Nat.mul_comm] at multiple
    rw [Int.mul_comm, divHalfEven_mul q positive]
    exact ⟨m, k - u, few, .inr (Nat.le_of_eq (Nat.sub_add_cancel exact)),
      Nat.eq_of_mul_eq_mul_right unitsPerOne_pos multiple⟩
  -- the bits below one are rounded off
  · have size : (divHalfEven v unitsPerOne).natAbs ≤ 2 ^ 53 := by
      refine natAbs_divHalfEven_le positive ?_
      rw [whole, units]
      exact Int.ofNat_le.2 (Nat.mul_le_mul (Nat.le_of_lt few)
        (Nat.pow_le_pow_right (by decide) (Nat.le_of_not_le exact)))
    rcases Nat.lt_or_eq_of_le size with less | carry
    · exact ⟨_, 0, less, .inl (by decide), (Nat.mul_one _).symm⟩
    · exact ⟨2 ^ 52, 1, by decide, .inl (by decide), carry⟩

end FeltWire.Binary64

import FeltWire.Proofs.Binary64.Operations

/-!
# Quotients and powers of doubles

A program that divides an integer by a power of two does so in doubles: it makes
a double of the integer, which rounds it, and divides by the power, which is a
double itself, found by repeated squaring.

## Only one of the two steps rounds

The rounded integer is a significand times its unit, and the quotient is the
same significand times another unit. It is no double only where the unit is less
than the least one, or where the quotient is too great. An integer of 53 bits or
fewer is not rounded, and a greater one keeps its leading one above that of the
least doubles when it is divided by a finite power. So the quotient is rounded
as the integer's own, which is the integer itself divided by the power and
rounded once.

## Main definitions

* `Binary64.dividedBy`: the quotient of any two doubles
* `Binary64.power`: the power of a double by an integer

## Main results

* `div_of_holds`: a rounded integer divided by a power of two is rounded once
* `times_powerOfTwo`, `power_two`: powers of two are found by repeated squaring,
  also where they are infinite
* `ofInt_dividedBy_power`: an integer of 64 bits divided by a power of two, for
  every exponent
-/

namespace FeltWire.Binary64

variable {x y : Binary64} {negative : Bool} {num den k m n e s : Nat}

/-! ## Rounded once -/

/-- A quotient that is a significand `s` with its leading one, or one more than
the greatest, times a power of two. In the second case the carry is the leading
one at the next place. -/
theorem nearest_of_multiple (pos : 0 < den) (exact : quotient num den = s * 2 ^ e)
    (normal : 2 ^ 52 ≤ s) (few : s ≤ 2 ^ 53) :
    nearest negative num den = assembled negative (e * 2 ^ 52 + s) := by
  rcases Nat.lt_or_eq_of_le few with few | rfl
  · exact Rounds.nearest_eq (exact ▸ rounds_mul few (.inr normal)) pos negative
  · have carry : quotient num den = (2 ^ 52 : Nat) * 2 ^ (e + 1) := by
      rw [exact, pow_succ' (2 : ℚ) e]
      push_cast
      ring
    rw [show e * 2 ^ 52 + 2 ^ 53 = (e + 1) * 2 ^ 52 + 2 ^ 52 by omega]
    exact Rounds.nearest_eq (carry ▸ rounds_mul (by decide) (.inr (Nat.le_refl _))) pos negative

/-- An integer `n` of at most 53 bits is a double. -/
theorem holds_integer (negative : Bool) (few : n < 2 ^ 53) :
    (nearest negative n 1).Holds negative (n * unitsPerOne) := by
  obtain ⟨k, hk, units⟩ := exists_unitsPerOne
  rw [units]
  exact nearest_of_exact negative Nat.one_pos (by rw [units, Nat.mul_one]) few (by omega)

/-- A greater integer (`many`) is rounded to a significand with its leading
one. -/
theorem exists_holds_integer (negative : Bool) (many : 2 ^ 53 ≤ n) (moderate : n ≤ 2 ^ 63) :
    ∃ e s, 1074 < e ∧ Rounds (quotient n 1) e s ∧
      (nearest negative n 1).Holds negative (s * 2 ^ e) := by
  obtain ⟨k, hk, units⟩ := exists_unitsPerOne
  obtain ⟨e, s, h⟩ := exists_rounds n Nat.one_pos
  have above : 2 ^ (53 + k) ≤ quotient n 1 := by
    rw [quotient, units, Nat.cast_one, div_one, pow_add]
    exact_mod_cast Nat.mul_le_mul_right (2 ^ k) many
  have powers := h.lt_of_le above
  have finite : (nearest negative n 1).isFinite = true :=
    isFinite_nearest (b := 64) (by decide) Nat.one_pos (by omega)
  have made := h.nearest_eq Nat.one_pos negative
  rw [made] at finite ⊢
  clear units
  exact ⟨e, s, by omega, h, (h.holds_assembled finite).1⟩

/-- A quotient that is `n` times a power of two, in units, by `same`. -/
theorem quotient_scaled {c : Nat} (units : unitsPerOne = 2 ^ c) (pos : 0 < den)
    (same : num * 2 ^ k = n * unitsPerOne * den) :
    quotient num den = quotient n 1 * 2 ^ c / 2 ^ k := by
  have same' : (num * 2 ^ k : ℚ) = n * unitsPerOne * den := by exact_mod_cast same
  have units' : (unitsPerOne : ℚ) = 2 ^ c := by exact_mod_cast units
  rw [quotient, quotient, Nat.cast_one, div_one,
    div_eq_div_iff (Nat.cast_pos.2 pos).ne' (by positivity), mul_right_comm, same', units']
  ring

/-- **A rounded integer divided by a power of two is rounded once.** An integer
of at most 53 bits is not rounded, and only the quotient is. A greater one is
rounded to `s` times its unit, and so is the quotient with another unit, which
is not less than the least one. -/
theorem div_of_holds (moderate : n ≤ 2 ^ 63) (power : y.Holds false (2 ^ k)) (small : k ≤ 2097)
    (pos : 0 < den) (same : num * 2 ^ k = n * unitsPerOne * den) :
    (nearest negative n 1).div y = nearest negative num den := by
  have two_pow : 0 < 2 ^ k := Nat.two_pow_pos k
  rcases Nat.lt_or_ge n (2 ^ 53) with few | many
  · have exact := holds_integer negative few
    rw [div, exact.sign, exact.magnitude, power.sign, power.magnitude, Bool.xor_false]
    exact nearest_congr negative two_pow pos same.symm
  -- both ways end with the significand `s`
  · obtain ⟨e, s, large, h, exact⟩ := exists_holds_integer negative many moderate
    obtain ⟨c, hc, units⟩ := exists_unitsPerOne
    obtain ⟨e', he⟩ : ∃ e', e' + k = e + c := ⟨e + c - k, by omega⟩
    have leading : 2 ^ (52 + e) ≤ quotient n 1 := h.leading.resolve_left (by omega)
    have multiple : quotient (s * 2 ^ e) (2 ^ k) = s * 2 ^ e' := by
      rw [quotient, units, div_eq_iff (by positivity)]
      push_cast
      rw [mul_assoc, mul_assoc, ← pow_add, ← pow_add, he]
    have scaled := quotient_scaled units pos same
    have normal := h.normal.resolve_left (by omega)
    rw [div, exact.sign, exact.magnitude, power.sign, power.magnitude, Bool.xor_false,
      nearest_of_multiple two_pow multiple normal h.few,
      Rounds.nearest_eq (scaled ▸ h.scale leading he) pos]

/-- Dividing a rounded integer by a `powerOfTwo` rounds once, too. -/
theorem div_powerOfTwo (moderate : n ≤ 2 ^ 63) (small : k ≤ 1023) :
    (nearest negative n 1).div (powerOfTwo k) = nearest negative n (2 ^ k) := by
  obtain ⟨c, hc, units⟩ := exists_unitsPerOne
  have power := holds_powerOfTwo small
  rw [units, ← Nat.pow_add] at power
  have same : n * 2 ^ (k + c) = n * unitsPerOne * 2 ^ k := by
    rw [units, Nat.mul_assoc, ← Nat.pow_add, Nat.add_comm]
  clear units
  exact div_of_holds moderate power (by omega) (Nat.two_pow_pos k) same

/-! ## Powers of two -/

/-- From the exponent 1024 on, a `powerOfTwo` is infinite. -/
theorem powerOfTwo_of_large (large : 1024 ≤ n) : powerOfTwo n = infinity false := by
  obtain ⟨k, hk, units⟩ := exists_unitsPerOne
  obtain ⟨c, hc⟩ : ∃ c, n + k = 52 + c := ⟨n + k - 52, by omega⟩
  have above : 2 ^ (52 + c) * 1 ≤ 2 ^ n * unitsPerOne := by
    rw [Nat.mul_one, units, ← Nat.pow_add, hc]
  clear units
  rw [powerOfTwo_eq]
  exact nearest_of_large Nat.one_pos (by omega) above

/-- A `powerOfTwo` is a positive number, or infinite. -/
theorem powerOfTwo_positive (n : Nat) : (powerOfTwo n).isNaN = false ∧
    (powerOfTwo n).isNegative = false ∧ (powerOfTwo n).magnitude ≠ 0 := by
  rcases Nat.lt_or_ge n 1024 with small | large
  · have power := holds_powerOfTwo (Nat.le_of_lt_succ small)
    refine ⟨isNaN_of_isFinite power.finite, power.sign, ?_⟩
    rw [power.magnitude]
    exact (Nat.mul_pos (Nat.two_pow_pos n) unitsPerOne_pos).ne'
  · rw [powerOfTwo_of_large large]
    exact ⟨by decide, by decide, Nat.mul_ne_zero (by decide) (Nat.two_pow_pos _).ne'⟩

/-- The product of two of them, where the first or the second is infinite
(`large`). -/
theorem times_powerOfTwo_of_large (large : 1024 ≤ m ∨ 1024 ≤ n) :
    (powerOfTwo m).times (powerOfTwo n) = infinity false := by
  obtain ⟨number, sign, nonzero⟩ := powerOfTwo_positive m
  obtain ⟨number', sign', nonzero'⟩ := powerOfTwo_positive n
  have infinite : ¬ ((powerOfTwo m).isFinite = true ∧ (powerOfTwo n).isFinite = true) := by
    rintro ⟨finite, finite'⟩
    rcases large with large | large
    · rw [powerOfTwo_of_large large, isFinite_infinity] at finite
      exact Bool.false_ne_true finite
    · rw [powerOfTwo_of_large large, isFinite_infinity] at finite'
      exact Bool.false_ne_true finite'
  rw [times, number, number', if_neg (by simp), if_neg infinite,
    if_neg (by simp [nonzero, nonzero']), sign, sign', Bool.xor_false]

/-- **The product of powers of two** is a `powerOfTwo`, infinite or not. -/
theorem times_powerOfTwo (m n : Nat) :
    (powerOfTwo m).times (powerOfTwo n) = powerOfTwo (m + n) := by
  by_cases small : m ≤ 1023 ∧ n ≤ 1023
  · have power := holds_powerOfTwo small.1
    have power' := holds_powerOfTwo small.2
    have same : 2 ^ m * unitsPerOne * (2 ^ n * unitsPerOne) * 1 =
        2 ^ (m + n) * (unitsPerOne * unitsPerOne) := by
      rw [Nat.pow_add]
      ring
    rw [times_of_isFinite power.finite power'.finite, mul, power.sign, power'.sign, Bool.xor_false,
      power.magnitude, power'.magnitude, powerOfTwo_eq]
    exact nearest_congr false (Nat.mul_pos unitsPerOne_pos unitsPerOne_pos) Nat.one_pos same
  · rw [times_powerOfTwo_of_large (by omega), powerOfTwo_of_large (by omega)]

/-! ## Any two doubles -/

/-- **The quotient of any two doubles**, where `div` is for finite ones. That of
two infinities or of two zeros is `nan`. -/
def dividedBy (x y : Binary64) : Binary64 :=
  if x.isNaN ∨ y.isNaN then nan
  else if x.isFinite ∧ y.isFinite then
    if y.magnitude ≠ 0 then x.div y
    else if x.magnitude ≠ 0 then infinity (x.isNegative ^^ y.isNegative) else nan
  else if x.isFinite then zero (x.isNegative ^^ y.isNegative)
  else if y.isFinite then infinity (x.isNegative ^^ y.isNegative)
  else nan

/-- The product of `acc` and a power of `base`, by repeated squaring: for each
binary digit of the exponent from the last on, the base is multiplied in if the
digit is one, and squared for the next. -/
def powerLoop (base acc : Binary64) (n : Nat) : Binary64 :=
  let acc' := if n % 2 = 1 then acc.times base else acc
  if n / 2 = 0 then acc' else powerLoop (base.times base) acc' (n / 2)
termination_by n
decreasing_by omega

/-- **The power of a double by an integer** `e`. For a negative one it is the
reciprocal of the power by its absolute value. -/
def power (x : Binary64) (e : Int) : Binary64 :=
  let raised := powerLoop x (ofInt 1) e.natAbs
  if e < 0 then (ofInt 1).dividedBy raised else raised

/-- Repeated squaring of a `powerOfTwo` in `powerLoop`: from step to step, the
product so far times the rest of the power is kept. -/
theorem powerLoop_powerOfTwo (m k n : Nat) :
    powerLoop (powerOfTwo m) (powerOfTwo k) n = powerOfTwo (k + m * n) := by
  -- induction on the exponent that is left, for every base
  induction n using Nat.strongRecOn generalizing m k with
  | ind n ih =>
    have digit : (if n % 2 = 1 then (powerOfTwo k).times (powerOfTwo m) else powerOfTwo k) =
        powerOfTwo (k + m * (n % 2)) := by
      rcases Nat.mod_two_eq_zero_or_one n with even | odd
      · rw [even, if_neg (by decide), Nat.mul_zero, Nat.add_zero]
      · rw [odd, if_pos rfl, times_powerOfTwo, Nat.mul_one]
    rw [powerLoop, digit, times_powerOfTwo]
    by_cases last : n / 2 = 0
    · rw [if_pos last, show n % 2 = n by omega]
    · have whole : m * n = m * (n % 2) + (m + m) * (n / 2) := by
        conv_lhs => rw [← Nat.mod_add_div n 2]
        ring
      rw [if_neg last, ih (n / 2) (by omega), whole, Nat.add_assoc]

theorem power_two (e : Int) : (ofInt 2).power e =
    if e < 0 then (ofInt 1).dividedBy (powerOfTwo e.natAbs) else powerOfTwo e.natAbs := by
  have raised := powerLoop_powerOfTwo 1 0 e.natAbs
  rw [Nat.zero_add, Nat.one_mul] at raised
  rw [power]
  exact congrArg (fun p => if e < 0 then (ofInt 1).dividedBy p else p) raised

theorem dividedBy_of_holds {units : Nat} (hx : x.isFinite = true) (hy : y.Holds false units)
    (nonzero : units ≠ 0) : x.dividedBy y = x.div y := by
  rw [dividedBy, isNaN_of_isFinite hx, isNaN_of_isFinite hy.finite, if_neg (by simp),
    if_pos ⟨hx, hy.finite⟩, hy.magnitude, if_pos nonzero]

theorem dividedBy_infinity (hx : x.isFinite = true) :
    x.dividedBy (infinity false) = zero x.isNegative := by
  have infinite : (infinity false).isFinite = false := isFinite_infinity false
  have number : (infinity false).isNaN = false := by decide
  have sign : (infinity false).isNegative = false := by decide
  rw [dividedBy, isNaN_of_isFinite hx, number, if_neg (by simp), if_neg (by simp [infinite]),
    if_pos hx, sign, Bool.xor_false]

theorem dividedBy_zero (hx : x.isFinite = true) :
    x.dividedBy (zero false) = if x.magnitude ≠ 0 then infinity x.isNegative else nan := by
  have finite : (zero false).isFinite = true := by decide
  have none : (zero false).magnitude = 0 := by decide
  have sign : (zero false).isNegative = false := by decide
  rw [dividedBy, isNaN_of_isFinite hx, isNaN_of_isFinite finite, if_neg (by simp),
    if_pos ⟨hx, finite⟩, none, if_neg (by simp), sign, Bool.xor_false]

theorem holds_one : (ofInt 1).Holds false unitsPerOne := by
  have one := holds_integer false (n := 1) (by decide)
  rwa [Nat.one_mul] at one

/-- The reciprocal of a `powerOfTwo` that is finite, in units. -/
theorem one_dividedBy_powerOfTwo (total : n + k = 1074) (small : n ≤ 1023) :
    ((ofInt 1).dividedBy (powerOfTwo n)).Holds false (2 ^ k) := by
  obtain ⟨c, hc, units⟩ := exists_unitsPerOne
  have power := holds_powerOfTwo small
  have nonzero : 2 ^ n * unitsPerOne ≠ 0 := (Nat.mul_pos (Nat.two_pow_pos n) unitsPerOne_pos).ne'
  have quotient : (ofInt 1).div (powerOfTwo n) = nearest false 1 (2 ^ n) :=
    div_powerOfTwo (n := 1) (by decide) small
  have whole : 1 * unitsPerOne = 1 * 2 ^ k * 2 ^ n := by
    rw [units, Nat.one_mul, Nat.one_mul, ← Nat.pow_add, hc, ← total, Nat.add_comm]
  have exact := nearest_of_exact false (Nat.two_pow_pos n) whole (by decide) (by omega)
  rwa [dividedBy_of_holds holds_one.finite power nonzero, quotient, ← Nat.one_mul (2 ^ k)]

/-- Between the exponents -1023 and 1023, the `power` is exact, in units. -/
theorem holds_power_two {e : Int} (total : e + 1074 = k) (low : -1023 ≤ e) (high : e ≤ 1023) :
    ((ofInt 2).power e).Holds false (2 ^ k) := by
  rw [power_two]
  by_cases negative : e < 0
  · rw [if_pos negative]
    exact one_dividedBy_powerOfTwo (by omega) (by omega)
  · obtain ⟨c, hc, units⟩ := exists_unitsPerOne
    have whole : 2 ^ e.natAbs * unitsPerOne = 2 ^ k := by
      rw [units, ← Nat.pow_add, show e.natAbs + c = k by omega]
    rw [if_neg negative, ← whole]
    clear units whole
    exact holds_powerOfTwo (by omega)

/-- From the exponent 1024 on the `power` is infinite. -/
theorem power_two_of_large {e : Int} (large : 1024 ≤ e) : (ofInt 2).power e = infinity false := by
  rw [power_two, if_neg (by omega), powerOfTwo_of_large (by omega)]

/-- From -1024 down the `power` vanishes, also where the exact one is a
double. -/
theorem power_two_of_small {e : Int} (small : e ≤ -1024) : (ofInt 2).power e = zero false := by
  rw [power_two, if_pos (by omega), powerOfTwo_of_large (by omega),
    dividedBy_infinity holds_one.finite, holds_one.sign]

/-! ## Integers divided by powers of two -/

/-- The double of an integer `v` of 64 bits is finite, and zero only for
zero. -/
theorem exists_holds_ofInt {v : Int} (moderate : v.natAbs ≤ 2 ^ 63) :
    ∃ units, (ofInt v).Holds (v < 0) units ∧ (units = 0 ↔ v = 0) := by
  rw [← Int.natAbs_eq_zero (a := v), ofInt]
  rcases Nat.lt_or_ge v.natAbs (2 ^ 53) with few | many
  · refine ⟨_, holds_integer _ few, ?_⟩
    rw [Nat.mul_eq_zero, or_iff_left unitsPerOne_pos.ne']
  · obtain ⟨e, s, large, h, holds⟩ := exists_holds_integer (v < 0) many moderate
    have normal := h.normal.resolve_left (by omega)
    refine ⟨_, holds, ?_⟩
    rw [Nat.mul_eq_zero, or_iff_left (Nat.two_pow_pos e).ne']
    omega

/-- **An integer of 64 bits divided by a power of two**, in doubles
(`dividedBy`, `power`): the quotient is rounded once, unless the power is
infinite or zero. -/
theorem ofInt_dividedBy_power {v : Int} (moderate : v.natAbs ≤ 2 ^ 63) (e : Int) :
    (ofInt v).dividedBy ((ofInt 2).power e) =
      if 1024 ≤ e then zero (v < 0)
      else if e ≤ -1024 then (if v = 0 then nan else infinity (v < 0))
      else nearest (v < 0) (v.natAbs * 2 ^ (-e).toNat) (2 ^ e.toNat) := by
  obtain ⟨units, holds, none⟩ := exists_holds_ofInt moderate
  by_cases large : 1024 ≤ e
  · rw [if_pos large, power_two_of_large large, dividedBy_infinity holds.finite, holds.sign]
  rw [if_neg large]
  by_cases small : e ≤ -1024
  · rw [if_pos small, power_two_of_small small, dividedBy_zero holds.finite, holds.magnitude,
      holds.sign]
    by_cases zero : v = 0
    · rw [if_neg (not_not.2 (none.2 zero)), if_pos zero]
    · rw [if_pos (none.not.2 zero), if_neg zero]
  rw [if_neg small]
  obtain ⟨k, total⟩ : ∃ k : Nat, e + 1074 = k := Int.eq_ofNat_of_zero_le (by omega)
  obtain ⟨c, hc, unit⟩ := exists_unitsPerOne
  have power := holds_power_two total (by omega) (by omega)
  have same : v.natAbs * 2 ^ (-e).toNat * 2 ^ k = v.natAbs * unitsPerOne * 2 ^ e.toNat := by
    rw [unit, Nat.mul_assoc, Nat.mul_assoc, ← Nat.pow_add, ← Nat.pow_add,
      show (-e).toNat + k = c + e.toNat by omega]
  clear unit
  rw [dividedBy_of_holds holds.finite power (Nat.two_pow_pos k).ne']
  exact div_of_holds moderate power (by omega) (Nat.two_pow_pos _) same

end FeltWire.Binary64

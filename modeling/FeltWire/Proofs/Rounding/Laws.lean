import FeltWire.Proofs.Rounding

/-!
# Laws of rounding to the nearest integer

Which integer is nearest depends on the rational number only. The roundings of
opposite numbers are opposite, ties included, because an integer is even if its
opposite is, and a greater number is not rounded to a smaller integer. In whole
numbers, nearest means that twice the distance, in parts of the divisor, is not
more than the divisor.

## Main results

* `IsNearestEven.neg`, `IsNearestEven.mono`: the laws of nearest integers
* `divHalfEven_neg`, `divHalfEven_mono`: those of rounded quotients
* `divHalfEven_eq_iff`: the rounded quotient, told in whole numbers
* `divHalfEven_exact`: rounding a quotient of integers of 128 bits
-/

namespace FeltWire

variable {q q' : ℚ} {r r' n n' d : Int}

/-! ## Nearest integers -/

/-- The opposite number `-q` is as far from the opposite integer `-r`. -/
theorem IsNearestEven.neg (h : IsNearestEven q r) : IsNearestEven (-q) (-r) := by
  have distance : |-q - (-r : Int)| = |q - r| := by
    rw [Int.cast_neg, neg_sub_neg, abs_sub_comm]
  rw [isNearestEven_iff, distance]
  exact ⟨h.le_half, fun tie => (h.even_of_eq_half tie).neg⟩

/-- **A greater number has no smaller nearest integer.** Two integers the wrong
way round are half a unit away from a number between them, which is then the
same for both, so that `IsNearestEven.unique` applies. -/
theorem IsNearestEven.mono (h : IsNearestEven q r) (h' : IsNearestEven q' r') (le : q ≤ q') :
    r ≤ r' := by
  refine Int.not_lt.1 fun less => ?_
  have apart : (r' + 1 : ℚ) ≤ r := by exact_mod_cast less
  have above := (abs_le.1 h.le_half).1
  have below := (abs_le.1 h'.le_half).2
  obtain rfl : q = q' := le_antisymm le (by linarith)
  exact less.ne (h'.unique h)

/-- An integer `r` is nearest to itself. -/
theorem isNearestEven_intCast (r : Int) : IsNearestEven r r := by
  rw [isNearestEven_iff, sub_self, abs_zero]
  norm_num

/-- An even integer `r'` that is as near as the nearest one is that one. -/
theorem IsNearestEven.eq_of_even (h : IsNearestEven q r) (even : Even r')
    (tie : |q - r'| = |q - r|) : r' = r := by
  have nearest : IsNearestEven q r' :=
    ⟨fun k => tie.trans_le (h.nearest k), fun _ _ _ => even⟩
  exact nearest.unique h

/-! ## Rounded quotients -/

theorem divHalfEven_neg (n : Int) (h : 0 < d) : divHalfEven (-n) d = -divHalfEven n d := by
  rw [← isNearestEven_div_iff h, Int.cast_neg, neg_div]
  exact (isNearestEven_divHalfEven n h).neg

theorem divHalfEven_mono (h : 0 < d) (le : n ≤ n') : divHalfEven n d ≤ divHalfEven n' d := by
  have positive : (0 : ℚ) < d := Int.cast_pos.2 h
  refine (isNearestEven_divHalfEven n h).mono (isNearestEven_divHalfEven n' h) ?_
  exact (div_le_div_iff_of_pos_right positive).2 (by exact_mod_cast le)

/-- **The rounded quotient in whole numbers**: twice the distance, in parts of
the divisor `d`, is at most `d`, and the integer `r` is even if it is as much.
This is `isNearestEven_iff` without rational numbers. -/
theorem divHalfEven_eq_iff (h : 0 < d) : divHalfEven n d = r ↔
    |2 * (r * d - n)| ≤ d ∧ (|2 * (r * d - n)| = d → Even r) := by
  have positive : (0 : ℚ) < d := Int.cast_pos.2 h
  have twice : |2 * (r * d - n)| = |n - r * d| * 2 := by
    rw [abs_mul, abs_two, abs_sub_comm, mul_comm]
  rw [← isNearestEven_div_iff h, isNearestEven_iff, abs_div_sub n r h,
    div_le_div_iff₀ positive two_pos, div_eq_div_iff positive.ne' two_ne_zero, one_mul, twice]
  norm_cast

/-- **Rounding a quotient of integers of 128 bits.** For a positive divisor `d`
there is one integer `r` such that twice its distance from the quotient, in
parts of the divisor, is at most `d`, and that is even if it is as much; this is
`divHalfEven n d`. Opposite dividends have opposite roundings, and a greater
dividend has no smaller one. No step on the way leaves 128 bits
(`divHalfEvenWide?`). -/
theorem divHalfEven_exact (hn : IsWide n) (positive : 0 < d) (hd : IsWide d) :
    (∀ r, divHalfEven n d = r ↔ |2 * (r * d - n)| ≤ d ∧ (|2 * (r * d - n)| = d → Even r)) ∧
    divHalfEven (-n) d = -divHalfEven n d ∧
    (∀ n', n ≤ n' → divHalfEven n d ≤ divHalfEven n' d) ∧
    divHalfEvenWide? n d = some (divHalfEven n d) :=
  ⟨fun _ => divHalfEven_eq_iff positive, divHalfEven_neg n positive,
    fun _ => divHalfEven_mono positive, divHalfEvenWide?_eq hn positive hd⟩

/-- A tie between two negative neighbours, and the limits of `IsWide` with the
least and the greatest divisor. -/
theorem divHalfEven_exact_limits :
    (divHalfEven (-5) 2 = -2 ∧ divHalfEven (-(-5)) 2 = 2 ∧
      divHalfEven (-5) 2 ≤ divHalfEven (-3) 2) ∧
    divHalfEvenWide? (2 ^ 127 - 1) 1 = some (2 ^ 127 - 1) ∧
    divHalfEvenWide? (-2 ^ 127) (2 ^ 127 - 1) = some (-1) := by
  have wide {v : Int} (low : -2 ^ 127 ≤ v) (high : v < 2 ^ 127) : IsWide v := ⟨low, high⟩
  obtain ⟨rounded, opposite, monotone, -⟩ :=
    divHalfEven_exact (n := -5) (d := 2) (wide (by decide) (by decide)) (by decide)
      (wide (by decide) (by decide))
  obtain ⟨-, -, -, greatest⟩ :=
    divHalfEven_exact (n := 2 ^ 127 - 1) (d := 1) (wide (by decide) (by decide)) (by decide)
      (wide (by decide) (by decide))
  obtain ⟨-, -, -, least⟩ :=
    divHalfEven_exact (n := -2 ^ 127) (d := 2 ^ 127 - 1) (wide (by decide) (by decide)) (by decide)
      (wide (by decide) (by decide))
  have tie : divHalfEven (-5) 2 = -2 := (rounded (-2)).2 ⟨by decide, fun _ => by decide⟩
  rw [tie] at opposite
  exact ⟨⟨tie, opposite, monotone (-3) (by decide)⟩, greatest, least⟩

end FeltWire

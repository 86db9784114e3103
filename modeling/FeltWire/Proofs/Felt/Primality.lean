import FeltWire.Felt
import Mathlib.Data.ZMod.Basic
import Mathlib.NumberTheory.LucasPrimality
import Mathlib.Tactic.NormNum.Prime

/-!
# The prime is prime

The elements are the residues modulo a number that is prime, so that they form a
field. This is shown by the test of Lucas: 3 has the order `prime - 1`, because
its power to that number is one and its power to no proper divisor is. The
powers are found by repeated squaring, which evaluates.

## Main definitions

* `powMod`: powers modulo a number, by repeated squaring

## Main results

* `powMod_eq`: these are the powers
* `dvd_prime_sub_one`: the prime divisors of `prime - 1`
* `prime_prime`: the prime is prime
-/

namespace FeltWire

/-- The power `a ^ n % m` by repeated squaring, for an exponent `n` of at most
`bits` bits. The last bit decides whether one more factor is needed. -/
def powMod (m : Nat) : (bits a n : Nat) → Nat
  | 0, _, _ => 1 % m
  | bits + 1, a, n => (if n % 2 = 1 then a else 1) * powMod m bits (a * a % m) (n / 2) % m

theorem powMod_eq (m : Nat) {bits n : Nat} (a : Nat) (h : n < 2 ^ bits) :
    powMod m bits a n = a ^ n % m := by
  induction bits generalizing a n with
  | zero =>
    obtain rfl : n = 0 := by simpa using h
    rfl
  | succ bits ih =>
    have half : n / 2 < 2 ^ bits := by
      rw [Nat.pow_succ] at h
      omega
    have squared : (a * a % m) ^ (n / 2) % m = a ^ (2 * (n / 2)) % m := by
      rw [← Nat.pow_mod, Nat.pow_mul, Nat.pow_two]
    rw [powMod, ih _ half, squared, Nat.mul_mod_mod]
    by_cases odd : n % 2 = 1
    · have whole : n = 2 * (n / 2) + 1 := by omega
      rw [if_pos odd, ← Nat.pow_succ', Nat.succ_eq_add_one, ← whole]
    · have whole : n = 2 * (n / 2) := by omega
      rw [if_neg odd, Nat.one_mul, ← whole]

theorem prime_sub_one : prime - 1 = 2 ^ 192 * 5 * 7 * 98714381 * 166848103 := by decide

/-- The prime divisors of `prime - 1`, as its factorisation has them. -/
theorem dvd_prime_sub_one {q : Nat} (hq : q.Prime) (h : q ∣ prime - 1) :
    q ∈ [2, 5, 7, 98714381, 166848103] := by
  have eq_of_dvd {r : Nat} (hr : r.Prime) (h : q ∣ r) : q = r :=
    (Nat.prime_dvd_prime_iff_eq hq hr).1 h
  rw [prime_sub_one, hq.dvd_mul, hq.dvd_mul, hq.dvd_mul, hq.dvd_mul] at h
  rcases h with (((h | h) | h) | h) | h
  · simp [eq_of_dvd Nat.prime_two (hq.dvd_of_dvd_pow h)]
  · simp [eq_of_dvd Nat.prime_five h]
  · simp [eq_of_dvd (by norm_num) h]
  · simp [eq_of_dvd (by norm_num) h]
  · simp [eq_of_dvd (by norm_num) h]

/-- Whether a power of 3 is one modulo `prime` can be evaluated by `powMod`. -/
theorem three_pow_eq_one_iff {n : Nat} (h : n < 2 ^ 252) :
    (3 : ZMod prime) ^ n = 1 ↔ powMod prime 252 3 n = 1 := by
  have cast : (3 : ZMod prime) ^ n = ((3 ^ n : Nat) : ZMod prime) := (Nat.cast_pow 3 n).symm
  rw [powMod_eq prime 3 h, cast, ← Nat.cast_one, ZMod.natCast_eq_natCast_iff']
  rfl

/-- **The prime is prime**, by Lucas' test: 3 has the order `prime - 1`, as no
power of it by a proper divisor is one. -/
theorem prime_prime : prime.Prime := by
  apply lucas_primality prime 3
  · rw [three_pow_eq_one_iff (by decide)]
    decide +kernel
  · intro q hq h
    have small : (prime - 1) / q < 2 ^ 252 :=
      Nat.lt_of_le_of_lt (Nat.div_le_self ..) (by decide)
    have others : ∀ q ∈ [2, 5, 7, 98714381, 166848103],
        powMod prime 252 3 ((prime - 1) / q) ≠ 1 := by decide +kernel
    rw [Ne, three_pow_eq_one_iff small]
    exact others q (dvd_prime_sub_one hq h)

end FeltWire

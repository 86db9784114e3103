import FeltWire.Proofs.Binary64.Quotients
import FeltWire.Proofs.Fixed.Arithmetic
import FeltWire.Proofs.Fixed.FromDoubles

/-!
# Fixed-point numbers that survive a double

The double of a fixed-point number is the one nearest to `raw / 2 ^ scale`. A
program finds it in two steps, each of which may round: it makes a double of the
raw value and divides that by a power of two. The second step never does, and
for a raw value that is a whole number of at most 53 bits times a power of two
the first does not either. Such a number is exactly its double, and making a
fixed-point number of the double gives it back.

No other number comes back. Whatever is made from a double has such a raw value,
because rounding leaves it no more bits than the double has. So showing a number
as a double and reading it again changes nothing, except for numbers that no
double stands for.

## Main definitions

* `HasRoom`: a raw value that a double has room for
* `toBinary64InDoubles`: the double of a fixed-point number, found in doubles

## Main results

* `toBinary64InDoubles_eq`: the double is found in doubles, rounded once
* `value_toBinary64`: a number whose raw value has room is exactly its double
* `hasRoom_of_ofBinary64`: what is made from a double has room in one
* `double_round_trip`: which numbers survive a double
-/

namespace FeltWire.Fixed

open Binary64 (unitsPerOne unitsPerOne_pos powerOfTwo)

variable {x : Fixed} {y : Binary64} {scale : UInt32}

/-! ## In doubles -/

/-- **The double of a fixed-point number, found in doubles**: the raw value as a
double (`ofInt`), divided by the power of two. -/
def toBinary64InDoubles (x : Fixed) : Binary64 :=
  (Binary64.ofInt x.raw.toInt).div (powerOfTwo x.scale.toNat)

/-- **The double is found in doubles** as `toBinary64` has it: only the first of
the two steps may round. -/
theorem toBinary64InDoubles_eq (small : x.scale.toNat ≤ maxScale) :
    x.toBinary64InDoubles = x.toBinary64 := by
  have low := x.raw.le_toInt
  have high := x.raw.toInt_lt
  have moderate : x.scale.toNat ≤ 1023 := Nat.le_trans small (by decide)
  rw [toBinary64InDoubles, Binary64.ofInt, toBinary64_eq (Nat.lt_succ_of_le moderate),
    Binary64.div_powerOfTwo (by omega) moderate]

/-! ## Raw values with room in a double -/

/-- **The raw value has room in a double**: it is an integer of an absolute
value of at most `2 ^ 53`, times a power of two. -/
def HasRoom (raw : Int64) : Prop :=
  ∃ (m : Int) (e : Nat), |m| ≤ 2 ^ 53 ∧ raw.toInt = m * 2 ^ e

theorem hasRoom_iff_fitsDouble : HasRoom x.raw ↔ x.FitsDouble := by
  constructor
  · rintro ⟨m, e, few, whole⟩
    refine ⟨m.natAbs, e, ?_, ?_⟩
    · rw [Int.abs_eq_natAbs] at few
      exact_mod_cast few
    · rw [whole, Int.natAbs_mul, Int.natAbs_pow]
      rfl
  · rintro ⟨m, e, few, whole⟩
    have size : |(m : Int)| ≤ 2 ^ 53 := by
      rw [Nat.abs_cast]
      exact_mod_cast few
    have absolute : (x.raw.toInt.natAbs : Int) = m * 2 ^ e := by exact_mod_cast whole
    rcases Int.natAbs_eq x.raw.toInt with sign | sign
    · exact ⟨m, e, size, sign.trans absolute⟩
    · refine ⟨-m, e, by rwa [abs_neg], ?_⟩
      rw [sign, absolute, Int.neg_mul]

/-- **A number whose raw value has room is exactly its double** at scales up to
`maxScale`. -/
theorem value_toBinary64 (small : x.scale.toNat ≤ maxScale) (room : HasRoom x.raw) :
    x.toBinary64.isFinite = true ∧ x.toBinary64.value = x.value := by
  obtain ⟨finite, scaled⟩ := scaled_toBinary64 small (hasRoom_iff_fitsDouble.1 room)
  have exact : (x.toBinary64.scaled * (2 ^ x.scale.toNat : Nat) : ℚ) =
      x.raw.toInt * (unitsPerOne : Int) := by exact_mod_cast scaled
  have units : ((unitsPerOne : Int) : ℚ) ≠ 0 := by exact_mod_cast unitsPerOne_pos.ne'
  have power : ((2 ^ x.scale.toNat : Nat) : ℚ) ≠ 0 := by exact_mod_cast (Nat.two_pow_pos _).ne'
  refine ⟨finite, ?_⟩
  rw [Binary64.value_eq, Fixed.value, div_eq_div_iff units power, exact]

/-- What is made from a double has room in one, as `fitsDouble_of_ofBinary64`
says. -/
theorem hasRoom_of_ofBinary64 (h : ofBinary64 y scale = .ok x) : HasRoom x.raw :=
  hasRoom_iff_fitsDouble.2 (fitsDouble_of_ofBinary64 h)

/-! ## The round trip -/

/-- **Which numbers survive a double.** At a scale of at most 126, a number
whose raw value has room in a double (`HasRoom`) is exactly its double and
is made from it again, and no other number is. What any double gives at any
scale has such a raw value, and so its own double gives it, too. All this is
so of the doubles and numbers that are found in doubles as well
(`toBinary64InDoubles`). -/
theorem double_round_trip :
    (∀ (raw : Int64) (scale : UInt32), scale.toNat ≤ 126 →
      (HasRoom raw ↔ ofBinary64 (toBinary64 ⟨raw, scale⟩) scale = .ok ⟨raw, scale⟩) ∧
      (HasRoom raw → (toBinary64 ⟨raw, scale⟩).isFinite = true ∧
        (toBinary64 ⟨raw, scale⟩).value = value ⟨raw, scale⟩)) ∧
    (∀ y scale x, ofBinary64 y scale = .ok x →
      HasRoom x.raw ∧ ofBinary64 x.toBinary64 scale = .ok x) ∧
    (∀ x : Fixed, x.scale.toNat ≤ 126 → x.toBinary64InDoubles = x.toBinary64) ∧
    ∀ y scale, ofBinary64InDoubles y scale = ofBinary64 y scale := by
  refine ⟨fun raw scale small => ⟨⟨fun room => ?_, hasRoom_of_ofBinary64⟩,
    value_toBinary64 (x := ⟨raw, scale⟩) small⟩, ?_, fun x => toBinary64InDoubles_eq,
    ofBinary64InDoubles_eq⟩
  · exact (ofBinary64_toBinary64 small (hasRoom_iff_fitsDouble.1 room)).2
  · intro y scale x given
    obtain ⟨rfl, -⟩ := ofBinary64_eq_ok_iff.1 given
    exact ⟨hasRoom_of_ofBinary64 given, (ofBinary64_toBinary64_of_ofBinary64 given).2⟩

/-- The `least` raw value survives at the greatest scale, and an odd one of 54
bits does not. -/
theorem double_round_trip_limits :
    let least : Fixed := ⟨-2 ^ 63, 126⟩
    let odd : Fixed := ⟨2 ^ 53 + 1, 0⟩
    (HasRoom least.raw ∧ ofBinary64 least.toBinary64 126 = .ok least ∧
      ofBinary64InDoubles least.toBinary64InDoubles 126 = .ok least) ∧
    ¬ HasRoom odd.raw ∧ ofBinary64 odd.toBinary64 0 = .ok ⟨2 ^ 53, 0⟩ := by
  intro least odd
  obtain ⟨survives, -, shown, given⟩ := double_round_trip
  have room : HasRoom least.raw := ⟨-1, 63, by decide, by decide +kernel⟩
  have back : ofBinary64 least.toBinary64 126 = .ok least :=
    (survives (-2 ^ 63) 126 (by decide)).1.1 room
  have other : ofBinary64 odd.toBinary64 0 = .ok ⟨2 ^ 53, 0⟩ := by decide +kernel
  refine ⟨⟨room, back, ?_⟩, ?_, other⟩
  · rw [given, shown least (by decide), back]
  · intro room
    have same := (survives (2 ^ 53 + 1) 0 (by decide)).1.1 room
    exact absurd (other.symm.trans same) (by decide)

end FeltWire.Fixed

import FeltWire.Rounding

/-!
# Double-precision numbers

A binary64 number is its 64 bits: a sign, eleven bits of exponent and 52 bits of
fraction. Every finite one is a whole multiple of `2 ^ -1074`, and it is through
that multiple, an integer, that the library computes with it: no operation here
is one of the hardware.

## Main definitions

* `Binary64`: the 64 bits
* `Binary64.scaled`: the integer that a finite number is a multiple of
  `2 ^ -1074` by
* `Binary64.nearest`: the number nearest to a quotient of natural numbers, a tie
  going to the even significand
* `Binary64.mul`, `Binary64.div`: the product and the quotient of finite
  numbers, rounded once
-/

namespace FeltWire

/-- A double-precision number, as its 64 `bits`. -/
structure Binary64 where
  bits : UInt64
deriving DecidableEq, Repr

namespace Binary64

/-- The number of units `2 ^ -1074` in one. All magnitudes are whole numbers of
them. -/
def unitsPerOne : Nat := 2 ^ 1074

/-! ## The parts of a number -/

/-- The sign bit. -/
def isNegative (x : Binary64) : Bool := 2 ^ 63 ≤ x.bits.toNat

/-- The eleven bits of the exponent. -/
def exponentField (x : Binary64) : Nat := x.bits.toNat / 2 ^ 52 % 2 ^ 11

/-- The 52 bits of the fraction. -/
def fraction (x : Binary64) : Nat := x.bits.toNat % 2 ^ 52

/-- Neither an infinity nor what is not a number, both of which have the
exponent 2047. -/
def isFinite (x : Binary64) : Bool := x.exponentField ≠ 2047

/-- What is not a number: the greatest exponent with a fraction. -/
def isNaN (x : Binary64) : Bool := x.exponentField = 2047 ∧ x.fraction ≠ 0

/-- The integer that the `fraction` stands for: it has a leading one unless the
exponent is least. -/
def significand (x : Binary64) : Nat :=
  if x.exponentField = 0 then x.fraction else 2 ^ 52 + x.fraction

/-- A unit in the last place is `2 ^ x.exponent` times `2 ^ -1074`. -/
def exponent (x : Binary64) : Nat := x.exponentField - 1

/-- The absolute value of a finite number, in units of `2 ^ -1074`; see
`unitsPerOne`. -/
def magnitude (x : Binary64) : Nat := x.significand * 2 ^ x.exponent

/-- **The value of a finite number**, in units of `2 ^ -1074`. -/
def scaled (x : Binary64) : Int := if x.isNegative then -x.magnitude else x.magnitude

/-! ## Making numbers -/

/-- The number of a sign and the 63 bits `rest` below it. -/
def ofParts (negative : Bool) (rest : Nat) : Binary64 :=
  ⟨UInt64.ofNat (negative.toNat * 2 ^ 63 + rest)⟩

/-- The zero of a sign, which has no other bit. -/
def zero (negative : Bool) : Binary64 := ofParts negative 0

/-- The infinity of a sign, the exponent 2047 without a `fraction`. -/
def infinity (negative : Bool) : Binary64 := ofParts negative (2047 * 2 ^ 52)

/-- What is not a number, with only the top bit of the fraction set. -/
def nan : Binary64 := ofParts false (2047 * 2 ^ 52 + 2 ^ 51)

/-- The sign bit set the other way. -/
def neg (x : Binary64) : Binary64 := ofParts (!x.isNegative) (x.bits.toNat % 2 ^ 63)

/-- **Rounding to nearest.** The number nearest to `num / den`, with the given
sign. The quotient is cut to 53 bits, or at the unit `2 ^ -1074` if it is so
small, and rounded there by `divHalfEven`; written into the bits, a carry out of
the significand moves the exponent up by itself. What passes the greatest finite
number is infinite. -/
def nearest (negative : Bool) (num den : Nat) : Binary64 :=
  let units := num * unitsPerOne
  let exponent := (units / den).log2 - 52
  let significand := (divHalfEven units (den * 2 ^ exponent : Nat)).toNat
  let rest := exponent * 2 ^ 52 + significand
  if rest < 2047 * 2 ^ 52 then ofParts negative rest else infinity negative

/-- The number `nearest` to an integer. -/
def ofInt (v : Int) : Binary64 := nearest (v < 0) v.natAbs 1

/-- The product of two finite numbers, rounded once by `nearest`. -/
def mul (x y : Binary64) : Binary64 :=
  nearest (x.isNegative ^^ y.isNegative) (x.magnitude * y.magnitude) (unitsPerOne * unitsPerOne)

/-- The quotient of two finite numbers, the second not zero, rounded once by
`nearest`. -/
def div (x y : Binary64) : Binary64 :=
  nearest (x.isNegative ^^ y.isNegative) x.magnitude y.magnitude

end Binary64

end FeltWire

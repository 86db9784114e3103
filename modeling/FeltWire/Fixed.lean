import FeltWire.Binary64.Layout

/-!
# Fixed-point numbers

A fixed-point number is a signed 64-bit integer, the raw value, and a scale: it
stands for `raw / 2 ^ scale`.

## Main definitions

* `Fixed`: raw value and scale
* `Fixed.toBinary64`: the double that a fixed-point number is shown as
* `Fixed.text`: its decimal text in messages
-/

namespace FeltWire

/-- **A fixed-point number** `raw / 2 ^ scale`, with a raw value of 64 bits. -/
structure Fixed where
  raw : Int64
  scale : UInt32
deriving DecidableEq, Repr

namespace Fixed

/-- The scale of numbers whose type declares none, such as `F64` in a schema. -/
def standardScale : UInt32 := 32

/-- The greatest scale that numbers can be computed at: `2 ^ maxScale` is a
signed 128-bit integer, the next power is not. -/
def maxScale : Nat := 126

/-- The exponent that a scale stands for where a power of two is formed: a scale
is read there as a signed 32-bit integer. -/
def exponentOf (scale : UInt32) : Int := Int.bmod scale.toNat (2 ^ 32)

/-- The raw value divided by a power of two, as a double. The power is a double
itself: from the exponent 1024 on it is infinite, and the quotient is a zero;
down to -1024 it is zero, and the quotient infinite or, of zero, `nan`.
Otherwise the quotient is rounded once. -/
def toBinary64 (x : Fixed) : Binary64 :=
  let e := exponentOf x.scale
  let raw := x.raw.toInt
  if 1024 ≤ e then .zero (raw < 0)
  else if e ≤ -1024 then (if raw = 0 then .nan else .infinity (raw < 0))
  else .nearest (raw < 0) (raw.natAbs * 2 ^ (-e).toNat) (2 ^ e.toNat)

/-- The decimal text of a fixed-point number: that of its double, in
`Layout.plain`. -/
def text (x : Fixed) : String := x.toBinary64.text .plain

end Fixed

end FeltWire

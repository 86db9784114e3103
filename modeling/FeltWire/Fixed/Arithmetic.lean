import FeltWire.Scalar

/-!
# Fixed-point arithmetic

Making fixed-point numbers from doubles and ratios, adding and multiplying them,
and their words. Every result is the exact one, rounded once to an integer raw
value with halves going to the even neighbour; a result without a signed 64-bit
raw value is a fault.

## Main definitions

* `Fixed.ofBinary64`, `Fixed.ofRatio`: the fixed-point number nearest to a
  double or a ratio
* `Fixed.add`, `Fixed.sub`, `Fixed.mul`: the operations on numbers of one scale
* `Fixed.encode`, `Fixed.decode`: the word of a fixed-point number
-/

namespace FeltWire.Fixed

/-- The integer `v` as a raw value, if it is a signed one of 64 bits. -/
def raw? (v : Int) : Option Int64 :=
  if -2 ^ 63 ≤ v ∧ v < 2 ^ 63 then some (.ofInt v) else none

/-- The intermediate result `v`, if it is a signed integer of 128 bits. -/
def wide? (v : Int) : Option Int := if -2 ^ 127 ≤ v ∧ v < 2 ^ 127 then some v else none

/-- The number of a `raw` value at a scale, or the fault of the `attempt` that
gave none. -/
def ofRaw? (raw : Option Int64) (scale : UInt32) (attempt : Attempt) : Except Fault Fixed :=
  match raw with
  | some raw => .ok ⟨raw, scale⟩
  | none => .error (.overflow attempt)

/-! ## From doubles and ratios -/

/-- The raw value nearest to `x` times `2 ^ scale`, for a finite double and up
to `maxScale`. -/
def rawOfBinary64? (x : Binary64) (scale : Nat) : Option Int64 :=
  if scale ≤ maxScale ∧ x.isFinite then
    raw? (divHalfEven (x.scaled * 2 ^ scale) Binary64.unitsPerOne)
  else none

/-- The fixed-point number nearest to a double, or an `overflow` that shows the
double. -/
def ofBinary64 (x : Binary64) (scale : UInt32) : Except Fault Fixed :=
  ofRaw? (rawOfBinary64? x scale.toNat) scale (.double x)

/-- The raw value nearest to `numerator * 2 ^ scale / denominator`. The scaled
numerator has to be an integer of 128 bits, and for a negative denominator so do
the negations of both. -/
def rawOfRatio? (numerator denominator : Int) (scale : Nat) : Option Int64 := do
  guard (denominator ≠ 0 ∧ scale ≤ maxScale)
  let scaled ← wide? (numerator * 2 ^ scale)
  if denominator < 0 then
    let scaled ← wide? (-scaled)
    let denominator ← wide? (-denominator)
    raw? (divHalfEven scaled denominator)
  else
    raw? (divHalfEven scaled denominator)

/-- The fixed-point number nearest to a ratio of 128-bit integers, or an
`overflow` that shows both of them. -/
def ofRatio (numerator denominator : Int) (scale : UInt32) : Except Fault Fixed :=
  ofRaw? (rawOfRatio? numerator denominator scale.toNat) scale (.ratio numerator denominator)

/-! ## Arithmetic -/

/-- An operation `op` on the raw values of numbers of one scale; different
scales are refused before `op` is tried. -/
def combine (op : Int → Int → Option Int64) (attempt : Fixed → Fixed → Attempt) (a b : Fixed) :
    Except Fault Fixed :=
  if a.scale = b.scale then ofRaw? (op a.raw.toInt b.raw.toInt) a.scale (attempt a b)
  else .error (.scaleMismatch a.scale b.scale)

/-- The sum of two numbers of one scale, which is exact if `raw?` admits it. -/
def add : Fixed → Fixed → Except Fault Fixed := combine (fun x y => raw? (x + y)) .sum

/-- The difference of two numbers of one scale, which is exact if `raw?` admits
it. -/
def sub : Fixed → Fixed → Except Fault Fixed := combine (fun x y => raw? (x - y)) .difference

/-- The product, brought back to the scale by `divHalfEven`; beyond `maxScale`
there is none. Different scales are reported first. -/
def mul (a b : Fixed) : Except Fault Fixed :=
  combine (fun x y =>
    if a.scale.toNat ≤ maxScale then raw? (divHalfEven (x * y) (2 ^ a.scale.toNat)) else none)
    .product a b

/-! ## Words -/

theorem natAbs_raw_le (x : Fixed) : x.raw.toInt.natAbs ≤ 2 ^ 63 := by
  have low := x.raw.le_toInt
  have high := x.raw.toInt_lt
  omega

/-- The word of the raw value, an integer of 64 bits by `natAbs_raw_le`. -/
def encode (x : Fixed) : Felt :=
  .ofSigned x.raw.toInt (Nat.lt_of_le_of_lt x.natAbs_raw_le (by decide))

/-- The word of a number that should have the given `scale`. -/
def encodeAt (scale : UInt32) (x : Fixed) : Except Fault Felt :=
  if x.scale = scale then .ok x.encode else .error (.scaleMismatch scale x.scale)

/-- The number at a `scale` whose raw value a word holds, as an integer of 64
bits. -/
def decode (scale : UInt32) (word : Felt) : Except Fault Fixed :=
  (decodeSigned .w64 word).map fun v => ⟨.ofInt v, scale⟩

end FeltWire.Fixed

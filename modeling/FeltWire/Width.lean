import FeltWire.Power

/-!
# Integer widths

The five widths an integer can be declared with, and the ranges they span.

## Main definitions

* `Width`: 8, 16, 32, 64 or 128 bits
* `Width.ofBits`: the width of a number of bits, any other number being refused
* `Width.maxUnsigned`, `Width.minSigned`, `Width.maxSigned`: the ends of the
  ranges
-/

namespace FeltWire

/-- The declared width of an integer, signed or unsigned. -/
inductive Width where
  | w8 | w16 | w32 | w64 | w128
deriving DecidableEq, Repr

namespace Width

/-- The number of bits of the width, 8 to 128. -/
def bits : Width → Nat
  | w8 => 8
  | w16 => 16
  | w32 => 32
  | w64 => 64
  | w128 => 128

/-- The number of bytes of the width, `bits / 8`. -/
def byteCount (w : Width) : Nat := w.bits / 8

/-- The greatest unsigned integer of the width `w`, `2 ^ w.bits - 1`. -/
def maxUnsigned (w : Width) : Nat := 2 ^ w.bits - 1

/-- The greatest signed integer of the width `w`, `2 ^ (w.bits - 1) - 1`. -/
def maxSigned (w : Width) : Int := 2 ^ (w.bits - 1) - 1

/-- The least signed integer of the width `w`, whose absolute value is one more
than `maxSigned`. -/
def minSigned (w : Width) : Int := -2 ^ (w.bits - 1)

/-- A number `bits` that is no width, as `ofBits` reports it. -/
structure Invalid where
  bits : Nat
deriving DecidableEq, Repr

/-- What is said about a number of bits that `ofBits` refuses. -/
def Invalid.message (e : Invalid) : String :=
  s!"bit_width must be 8, 16, 32, 64, or 128, got {e.bits}"

/-- The width that has the given number of bits, or the refusal `Invalid`. -/
def ofBits : Nat → Except Invalid Width
  | 8 => .ok w8
  | 16 => .ok w16
  | 32 => .ok w32
  | 64 => .ok w64
  | 128 => .ok w128
  | n => .error ⟨n⟩

/-! ## Room in 128 bits -/

theorem maxUnsigned_lt (w : Width) : w.maxUnsigned < 2 ^ 128 := by cases w <;> decide

/-- Zero fits every signed width, and no width passes 128 bits: `minSigned` and
`maxSigned` lie between `-2 ^ 127` and `2 ^ 127`. -/
theorem signed_range (w : Width) :
    -2 ^ 127 ≤ w.minSigned ∧ w.minSigned < 0 ∧ 0 < w.maxSigned ∧ w.maxSigned < 2 ^ 127 := by
  cases w <;> decide

/-- An unsigned integer `n` that fits a width `w` is one of 128 bits, as
`Felt.ofUnsigned` asks for. -/
theorem lt_of_le_maxUnsigned {w : Width} {n : Nat} (fits : n ≤ w.maxUnsigned) : n < 2 ^ 128 :=
  Nat.lt_of_le_of_lt fits w.maxUnsigned_lt

/-- So is the absolute value of a signed integer `v` that fits a width, as
`Felt.ofSigned` asks for. -/
theorem natAbs_lt_of_fits {w : Width} {v : Int} (fits : w.minSigned ≤ v ∧ v ≤ w.maxSigned) :
    v.natAbs < 2 ^ 128 := by
  have range := w.signed_range
  omega

/-! ## Reading a width -/

@[simp] theorem ofBits_bits (w : Width) : ofBits w.bits = .ok w := by cases w <;> rfl

/-- A number `n` is a width exactly if some width has `n` bits, and `ofBits`
gives that one. -/
theorem ofBits_eq_ok_iff {n : Nat} {w : Width} : ofBits n = .ok w ↔ n = w.bits := by
  refine ⟨fun h => ?_, fun h => h ▸ ofBits_bits w⟩
  unfold ofBits at h
  split at h <;> cases h <;> rfl

end Width

end FeltWire

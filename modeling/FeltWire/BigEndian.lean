import FeltWire.Power

/-!
# Big-endian bytes

A whole number as bytes, the most significant first.

## Main definitions

* `BigEndian.encode width n`: the last `width` bytes of `n`
* `BigEndian.decode`: the number that bytes denote

## Main results

* `decode_encode`, `encode_decode`: the two are inverse up to the width
-/

namespace FeltWire.BigEndian

/-- The last `width` bytes of the number `n`, the most significant first; what
`n` has in front of them is dropped. -/
def encode : (width : Nat) → Nat → List UInt8
  | 0, _ => []
  | width + 1, n => encode width (n / 256) ++ [UInt8.ofNat n]

/-- The number that `bytes` denote. The first byte is the most significant, and
no bytes denote 0. -/
def decode (bytes : List UInt8) : Nat := bytes.foldl (fun n b => 256 * n + b.toNat) 0

@[simp] theorem length_encode (width n : Nat) : (encode width n).length = width := by
  induction width generalizing n with
  | zero => rfl
  | succ width ih => simp [encode, ih]

@[simp] theorem decode_nil : decode [] = 0 := rfl

@[simp] theorem decode_append_singleton (bytes : List UInt8) (b : UInt8) :
    decode (bytes ++ [b]) = 256 * decode bytes + b.toNat := by
  simp [decode, List.foldl_append]

/-- Fewer bytes than `n` has keep its residue modulo `256 ^ width`, so that
`decode` undoes `encode` on every `n` below that. -/
theorem decode_encode (width n : Nat) : decode (encode width n) = n % 256 ^ width := by
  induction width generalizing n with
  | zero => simp [encode, Nat.mod_one]
  | succ width ih =>
    have last : (UInt8.ofNat n).toNat = n % 256 := by simp
    rw [encode, decode_append_singleton, ih, last, Nat.pow_succ, Nat.mul_comm (256 ^ width) 256,
      Nat.mod_mul]
    omega

/-- Conversely, `bytes` are determined by their number and their count: `encode`
undoes `decode` at `bytes.length`. -/
theorem encode_decode (bytes : List UInt8) : encode bytes.length (decode bytes) = bytes := by
  suffices reversed : ∀ r : List UInt8, encode r.length (decode r.reverse) = r.reverse by
    simpa using reversed bytes.reverse
  intro r
  induction r with
  | nil => rfl
  | cons b r ih =>
    have hb := b.toNat_lt
    have quotient : (256 * decode r.reverse + b.toNat) / 256 = decode r.reverse := by omega
    have last : UInt8.ofNat (256 * decode r.reverse + b.toNat) = b := by
      apply UInt8.toNat_inj.1
      rw [UInt8.toNat_ofNat']
      omega
    rw [List.reverse_cons, List.length_cons, encode, decode_append_singleton, quotient, last, ih]

theorem decode_lt (bytes : List UInt8) : decode bytes < 256 ^ bytes.length := by
  have h := decode_encode bytes.length (decode bytes)
  rw [encode_decode] at h
  have := Nat.mod_lt (decode bytes) (Nat.pow_pos (n := bytes.length) (by decide : 0 < 256))
  omega

end FeltWire.BigEndian

import FeltWire.BigEndian
import FeltWire.Numeral

/-!
# Field elements

The field of integers modulo the prime `2 ^ 251 + 17 * 2 ^ 192 + 1`. An element
is held as its canonical residue, the integer below the prime, so that equal
elements are equal values and every element has exactly one word on the wire.

## Main definitions

* `Felt`: a canonical residue
* `Felt.ofNat?`: an integer that is already below the prime
* `Felt.reduce`: the residue of a natural number of any size
* `Felt.ofUnsigned`, `Felt.ofSigned`: the element of an integer of at most 128
  bits, which nothing has to reduce
* `Felt.ofInt`: the residue of any integer
* `Felt.isUpperHalf`: whether the residue stands for a negative integer
* `Felt.toBytes`: the word of 32 bytes

## Main results

* `val_add`, `val_sub`, `val_neg`, `val_mul`: the operations are those of the
  integers modulo the prime
* `decode_toBytes`: a word denotes its residue
-/

namespace FeltWire

/-- The field prime, `2 ^ 251 + 17 * 2 ^ 192 + 1`. -/
def prime : Nat := 2 ^ 251 + 17 * 2 ^ 192 + 1

/-- The number of bytes in a word; `256 ^ wordSize` is above the `prime`. -/
def wordSize : Nat := 32

/-- The number of bytes that a word can carry whatever they are, since
`256 ^ chunkSize` is below the `prime`. -/
def chunkSize : Nat := 31

/-- **A field element**, as the residue `val` that is below the `prime`.
Whatever builds an element has to show `val_lt`. -/
structure Felt where
  val : Nat
  val_lt : val < prime
deriving DecidableEq, Repr

namespace Felt

theorem prime_pos : 0 < prime := by decide

theorem prime_le : prime ≤ 256 ^ wordSize := by decide

theorem chunk_le_prime : 256 ^ chunkSize ≤ prime := by decide

theorem two_pow_lt_prime : 2 ^ 128 < prime := by decide

@[ext] theorem ext {x y : Felt} (h : x.val = y.val) : x = y := by
  cases x; cases y; cases h; rfl

/-! ## Residues -/

/-- The residue of a natural number `n`, for results of sums and products that
can pass the `prime`. -/
def reduce (n : Nat) : Felt := ⟨n % prime, Nat.mod_lt n prime_pos⟩

/-- The element that `n` is as it stands, or `none` if `n` is not below the
`prime`. -/
def ofNat? (n : Nat) : Option Felt := if h : n < prime then some ⟨n, h⟩ else none

instance : Zero Felt := ⟨⟨0, prime_pos⟩⟩

instance : Add Felt := ⟨fun x y => reduce (x.val + y.val)⟩

instance : Mul Felt := ⟨fun x y => reduce (x.val * y.val)⟩

/-- The `prime` is added first, so that the difference stays a natural number
for `reduce`. -/
instance : Sub Felt := ⟨fun x y => reduce (x.val + prime - y.val)⟩

/-- What `x` lacks to the `prime`: the absolute value of the negative integer
that an element of the upper half (`isUpperHalf`) stands for. -/
def complement (x : Felt) : Nat := prime - x.val

instance : Neg Felt :=
  ⟨fun x =>
    if h : x.val = 0 then 0
    else ⟨x.complement, by have := x.val_lt; unfold complement; omega⟩⟩

/-- The element that an unsigned integer `n` is as it stands: no integer type
has more than 128 bits, and `two_pow_lt_prime` puts `n` below the `prime`. -/
def ofUnsigned (n : Nat) (h : n < 2 ^ 128) : Felt := ⟨n, Nat.lt_trans h two_pow_lt_prime⟩

/-- The element of a signed integer `v`: a negative one is the negation of the
element that its absolute value `v.natAbs` is. -/
def ofSigned (v : Int) (h : v.natAbs < 2 ^ 128) : Felt :=
  if v < 0 then -ofUnsigned v.natAbs h else ofUnsigned v.natAbs h

/-- The residue of an integer. What an integer type holds is `ofSigned` as it
stands, and only a `v` of more than 128 bits is reduced. -/
def ofInt (v : Int) : Felt :=
  if h : v.natAbs < 2 ^ 128 then ofSigned v h
  else if v < 0 then -reduce v.natAbs
  else reduce v.natAbs

/-- The truth value `b` is the unsigned integer 0 or 1, by `ofUnsigned`. -/
def ofBool (b : Bool) : Felt := ofUnsigned b.toNat (Nat.lt_of_le_of_lt b.toNat_le (by decide))

/-- Residues above `(prime - 1) / 2` stand for negative integers. -/
def isUpperHalf (x : Felt) : Bool := (prime - 1) / 2 < x.val

@[simp] theorem val_zero : (0 : Felt).val = 0 := rfl

@[simp] theorem val_reduce (n : Nat) : (reduce n).val = n % prime := rfl

@[simp] theorem val_ofUnsigned {n : Nat} (h : n < 2 ^ 128) : (ofUnsigned n h).val = n := rfl

@[simp] theorem val_add (x y : Felt) : (x + y).val = (x.val + y.val) % prime := rfl

@[simp] theorem val_mul (x y : Felt) : (x * y).val = (x.val * y.val) % prime := rfl

theorem val_sub (x y : Felt) : (x - y).val = (x.val + prime - y.val) % prime := rfl

theorem val_neg (x : Felt) : (-x).val = (prime - x.val) % prime := by
  have := x.val_lt
  show (if h : x.val = 0 then (0 : Felt) else ⟨x.complement, _⟩).val = _
  split
  · simp_all
  · rw [Nat.mod_eq_of_lt (by omega)]
    rfl

/-- Integers of at most 128 bits are below the `prime` in absolute value, so
that a nonnegative `v` is its own residue and a negative one is `prime + v`. -/
theorem val_ofSigned {v : Int} (h : v.natAbs < 2 ^ 128) :
    ((ofSigned v h).val : Int) = if v < 0 then prime + v else v := by
  have room := two_pow_lt_prime
  unfold ofSigned
  split
  · rw [val_neg, val_ofUnsigned, Nat.mod_eq_of_lt (by omega)]
    omega
  · rw [val_ofUnsigned]
    omega

@[simp] theorem reduce_val (x : Felt) : reduce x.val = x := ext (Nat.mod_eq_of_lt x.val_lt)

/-- Where `ofUnsigned` is defined, `reduce` agrees: reducing an unsigned integer
`n` changes nothing. -/
theorem ofUnsigned_eq_reduce {n : Nat} (h : n < 2 ^ 128) : ofUnsigned n h = reduce n :=
  ext (Nat.mod_eq_of_lt (Nat.lt_trans h two_pow_lt_prime)).symm

theorem ofSigned_eq_ofInt {v : Int} (h : v.natAbs < 2 ^ 128) : ofSigned v h = ofInt v :=
  (dif_pos h).symm

/-- The residue of an integer `v`, whatever its size, is that of its absolute
value `v.natAbs` or its negation. -/
theorem ofInt_eq (v : Int) : ofInt v = if v < 0 then -reduce v.natAbs else reduce v.natAbs := by
  unfold ofInt
  split
  · next small => rw [ofSigned, ofUnsigned_eq_reduce]
  · rfl

@[simp] theorem ofInt_natCast (n : Nat) : ofInt n = reduce n := by
  rw [ofInt_eq, if_neg (Int.not_lt.2 (Int.natCast_nonneg n)), Int.natAbs_natCast]

@[simp] theorem ofInt_negSucc (n : Nat) : ofInt (.negSucc n) = -reduce (n + 1) :=
  (ofInt_eq _).trans (if_pos (Int.negSucc_lt_zero n))

theorem val_reduce_of_lt {n : Nat} (h : n < prime) : (reduce n).val = n := Nat.mod_eq_of_lt h

@[simp] theorem ofNat?_val (x : Felt) : ofNat? x.val = some x := by simp [ofNat?, x.val_lt]

/-- A number `n` is an element exactly if it is that element's residue
`x.val`. -/
theorem ofNat?_eq_some_iff {n : Nat} {x : Felt} : ofNat? n = some x ↔ n = x.val := by
  refine ⟨fun h => ?_, fun h => h ▸ ofNat?_val x⟩
  unfold ofNat? at h
  split at h <;> cases h
  rfl

theorem ofNat?_eq_none_iff {n : Nat} : ofNat? n = none ↔ prime ≤ n := by
  unfold ofNat?
  split <;> simp <;> omega

/-! ## Words and text -/

/-- The word of an element: its residue in `wordSize` bytes, the most
significant first. -/
def toBytes (x : Felt) : List UInt8 := BigEndian.encode wordSize x.val

/-- An element as lowercase hexadecimal digits behind `0x`, as `Numeral.hex`
writes its residue. -/
def hex (x : Felt) : String := Numeral.hex x.val

/-- The residue of `x`, if it is a number of 128 bits. -/
def small? (x : Felt) : Option Nat := if x.val < 2 ^ 128 then some x.val else none

/-- An element as it is shown to a developer, with its `hex` in quotation
marks. -/
def debug (x : Felt) : String := s!"Felt(\"{x.hex}\")"

@[simp] theorem length_toBytes (x : Felt) : x.toBytes.length = wordSize :=
  BigEndian.length_encode ..

/-- A word denotes its residue: `BigEndian.decode` undoes `toBytes`, for every
residue is below `256 ^ wordSize`. -/
@[simp] theorem decode_toBytes (x : Felt) : BigEndian.decode x.toBytes = x.val := by
  rw [toBytes, BigEndian.decode_encode, Nat.mod_eq_of_lt (Nat.lt_of_lt_of_le x.val_lt prime_le)]

/-- At most `chunkSize` bytes are an element as they stand, the first byte being
the most significant. The bound `h` is what keeps them below the `prime`. -/
def ofChunk (bytes : List UInt8) (h : bytes.length ≤ chunkSize) : Felt :=
  ⟨BigEndian.decode bytes,
    Nat.lt_of_lt_of_le (BigEndian.decode_lt bytes)
      (Nat.le_trans (Nat.pow_le_pow_right (by decide) h) chunk_le_prime)⟩

end Felt

end FeltWire

import FeltWire.Fault

/-!
# Scalars as words

Integers and truth values, one word each. The words of negative integers are in
the upper half of the field, and reading one back needs the declared width.

## Main definitions

* `encodeUnsigned`, `encodeSigned`, `encodeBool`: the word of a scalar
* `decodeUnsigned`, `decodeSigned`, `decodeBool`: the scalar of a word
-/

namespace FeltWire

/-- The word of an unsigned integer `n` that fits the width `w`; the test is
what `Felt.ofUnsigned` needs. -/
def encodeUnsigned (w : Width) (n : Nat) : Except Fault Felt :=
  if fits : n ≤ w.maxUnsigned then .ok (.ofUnsigned n (Width.lt_of_le_maxUnsigned fits))
  else .error (.range (.integer n) w false)

/-- The unsigned integer of a `word`, which is its residue, if it fits the width
`w`. -/
def decodeUnsigned (w : Width) (word : Felt) : Except Fault Nat :=
  if word.val ≤ w.maxUnsigned then .ok word.val else .error (.range (.word word) w false)

/-- The word of a signed integer `v` that fits the width `w`; the test is what
`Felt.ofSigned` needs. -/
def encodeSigned (w : Width) (v : Int) : Except Fault Felt :=
  if fits : w.minSigned ≤ v ∧ v ≤ w.maxSigned then
    .ok (.ofSigned v (Width.natAbs_lt_of_fits fits))
  else .error (.range (.integer v) w true)

/-- The signed integer of a `word`, if it fits the width `w`. A word of the
upper half (`Felt.isUpperHalf`) is negative, and its absolute value is
`Felt.complement`. -/
def decodeSigned (w : Width) (word : Felt) : Except Fault Int :=
  if word.isUpperHalf then
    if w.minSigned ≤ -(word.complement : Int) then .ok (-word.complement)
    else .error (.range (.word word) w true)
  else
    if (word.val : Int) ≤ w.maxSigned then .ok word.val
    else .error (.range (.word word) w true)

/-- The word of a truth value, 1 for `true`. -/
def encodeBool (b : Bool) : Felt := .ofBool b

/-- The truth value of a `word`, which has to be 0 or 1; any other is an
`invalidBoolean`. -/
def decodeBool (word : Felt) : Except Fault Bool :=
  if word.val = 0 then .ok false
  else if word.val = 1 then .ok true
  else .error (.invalidBoolean word)

end FeltWire

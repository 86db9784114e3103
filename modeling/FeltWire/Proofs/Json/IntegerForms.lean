import FeltWire.Proofs.Felt.Grammar
import FeltWire.Proofs.Json.Scalars

/-!
# The two forms of an integer in a document

A document can give an integer as a number or as the text of its decimal digits.
A number of a document is an integer of 64 bits, with or without a sign, so that
a number form exists for the integers from `-2 ^ 63` up to `2 ^ 64`.

## Why the forms can differ

Every reader asks a number for the integer that it can hold. Unsigned integers
and elements take all of the upper half of the 64-bit range, the one because it
asks for an integer without a sign, the other because it asks for both. A reader
of signed integers asks only for one with a sign. In its number form it misses
the integers from `2 ^ 63` on, which it takes as texts; the only width that has
room for them is the one of 128 bits.

## Main definitions

* `Shape.TakesIntegers`: the shapes that are read from integers
* `Shape.FormsAgree`: both forms of an integer give the same value, or neither
  gives one

## Main results

* `Json.natural?_forms`, `Json.integer?_number`, `Json.integer?_string`,
  `Json.felt_number`, `Json.felt_string`: what is read from each form
* `Shape.formsAgree_unsigned`, `Shape.formsAgree_signed_iff`,
  `Shape.formsAgree_felt`: which readers tell the forms apart
* `Shape.integer_forms_agree_iff`: the forms agree up to the upper half of the
  signed integers of 128 bits
-/

namespace FeltWire

/-! ## What is read from the two forms -/

namespace Json

variable {v : Int}

/-- **Unsigned integers** are read alike from both forms, up to `2 ^ 64`. -/
theorem natural?_forms (upper : v < 2 ^ 64) :
    (number (.integer v)).natural? = (string (toString v)).natural? := by
  rw [natural?, natural?, JsonNumber.natural?, Numeral.natural?_toString_int]
  by_cases positive : 0 ≤ v
  · have fits : v.toNat < 2 ^ 128 := by omega
    rw [if_pos ⟨positive, upper⟩, if_pos positive, Option.filter_some, if_pos (decide_eq_true fits)]
  · have range : ¬ (0 ≤ v ∧ v < 2 ^ 64) := fun h => positive h.1
    rw [if_neg range, if_neg positive, Option.filter_none]

/-- The number form of a **signed integer** is read up to the greatest one of 64
bits, as `JsonNumber.integer?` tests. -/
theorem integer?_number (lower : -2 ^ 63 ≤ v) :
    (number (.integer v)).integer? = if v < 2 ^ 63 then some v else none := by
  simp only [integer?, JsonNumber.integer?, lower, true_and]

/-- The text form of a signed integer is read up to the greatest one of 128
bits, which is beyond `upper`. -/
theorem integer?_string (lower : -2 ^ 63 ≤ v) (upper : v < 2 ^ 64) :
    (string (toString v)).integer? = some v := by
  have fits : -2 ^ 127 ≤ v ∧ v < 2 ^ 127 := by omega
  rw [integer?, Numeral.integer?_toString, Option.filter_some, if_pos (decide_eq_true fits)]

theorem felt_of_natural? {n : JsonNumber} {k : Nat} (read : n.natural? = some k) :
    (number n).felt = .ok (.felt (.ofInt k)) := by
  rw [felt]
  split
  · next m natural =>
    obtain rfl : m = k := Option.some.inj (natural.symm.trans read)
    rw [Felt.ofUnsigned_eq_reduce, Felt.ofInt_natCast]
  · next none _ => cases none.symm.trans read
  · next none _ => cases none.symm.trans read

theorem felt_of_integer? {n : JsonNumber} (negative : n.natural? = none)
    (read : n.integer? = some v) : (number n).felt = .ok (.felt (.ofInt v)) := by
  rw [felt]
  split
  · next m natural => cases negative.symm.trans natural
  · next u natural integer =>
    obtain rfl : u = v := Option.some.inj (integer.symm.trans read)
    rw [Felt.ofSigned_eq_ofInt]
  · next none => cases none.symm.trans read

/-- **Elements** are read from the number form, whichever half of the range it
is in: `natural?` is asked before `integer?`. -/
theorem felt_number (lower : -2 ^ 63 ≤ v) (upper : v < 2 ^ 64) :
    (number (.integer v)).felt = .ok (.felt (.ofInt v)) := by
  by_cases positive : 0 ≤ v
  · obtain ⟨n, rfl⟩ := Int.eq_ofNat_of_zero_le positive
    have natural : (JsonNumber.integer n).natural? = some n := by
      rw [JsonNumber.natural?, if_pos ⟨positive, upper⟩, Int.toNat_natCast]
    exact felt_of_natural? natural
  · have negative : ¬ (0 ≤ v ∧ v < 2 ^ 64) := fun h => positive h.1
    have range : -2 ^ 63 ≤ v ∧ v < 2 ^ 63 := by omega
    refine felt_of_integer? ?_ ?_
    · rw [JsonNumber.natural?, if_neg negative]
    · rw [JsonNumber.integer?, if_pos range]

/-- Elements are read from the text form, which `Felt.isNumeral` takes for a
number. -/
theorem felt_string (lower : -2 ^ 63 ≤ v) (upper : v < 2 ^ 64) :
    (string (toString v)).felt = .ok (.felt (.ofInt v)) := by
  have room : 2 ^ 64 < prime := by decide
  have small : v.natAbs < prime := by omega
  rw [felt, if_pos (Felt.isNumeral_toString v), Felt.parse_toString small]
  rfl

end Json

/-! ## Where the forms agree -/

namespace Shape

/-- The shapes that are read from integers, as `natural?` or `integer?` finds
them. -/
def TakesIntegers : Shape → Prop
  | unsigned _ | signed _ | felt => True
  | _ => False

/-- **Both forms of an integer give the same value** under the shape `s`, or
neither gives one. -/
def FormsAgree (s : Shape) (v : Int) : Prop :=
  ∀ u, s.ofJson (.number (.integer v)) = .ok u ↔ s.ofJson (.string (toString v)) = .ok u

variable {v : Int}

theorem formsAgree_unsigned (w : Width) (upper : v < 2 ^ 64) : (unsigned w).FormsAgree v := by
  intro u
  rw [ofJson_unsigned_iff, ofJson_unsigned_iff, Json.natural?_forms upper]

theorem formsAgree_felt (lower : -2 ^ 63 ≤ v) (upper : v < 2 ^ 64) : felt.FormsAgree v := by
  intro u
  rw [ofJson, ofJson, Json.felt_number lower upper, Json.felt_string lower upper]

/-- In the upper half of the range, signed integers of 128 bits are read from
texts only: `JsonNumber.integer?` has no number for them. -/
theorem ofJson_upperHalf (lower : 2 ^ 63 ≤ v) (upper : v < 2 ^ 64) :
    (signed .w128).ofJson (.number (.integer v)) =
      .error ⟨[], .unexpected (.shape (.signed .w128)) "number"⟩ ∧
    (signed .w128).ofJson (.string (toString v)) = .ok (.signed v) := by
  have least : -2 ^ 63 ≤ v := by omega
  have fits : Width.w128.minSigned ≤ v ∧ v ≤ Width.w128.maxSigned := by
    have limits : Width.w128.minSigned = -2 ^ 127 ∧ Width.w128.maxSigned = 2 ^ 127 - 1 := ⟨rfl, rfl⟩
    omega
  constructor
  · rw [ofJson, Json.signed, Json.integer?_number least, if_neg (Int.not_lt.2 lower)]
    rfl
  · exact ofJson_signed_iff.2 ⟨v, Json.integer?_string least upper, fits, rfl⟩

/-- The one width that has room for the upper half of the range is `w128`. -/
theorem maxSigned_lt_of_ne {w : Width} (h : w ≠ .w128) : w.maxSigned < 2 ^ 63 := by
  cases w with
  | w128 => exact absurd rfl h
  | w8 | w16 | w32 | w64 => decide

/-- **Signed integers** are read alike from both forms, unless the number form
is not read and the width `w` has room for the integer. -/
theorem formsAgree_signed_iff {w : Width} (lower : -2 ^ 63 ≤ v) (upper : v < 2 ^ 64) :
    (signed w).FormsAgree v ↔ ¬ (w = .w128 ∧ 2 ^ 63 ≤ v) := by
  constructor
  · rintro agree ⟨rfl, half⟩
    obtain ⟨refused, read⟩ := ofJson_upperHalf half upper
    rw [(agree _).2 read] at refused
    cases refused
  · intro outside u
    rw [ofJson_signed_iff, ofJson_signed_iff, Json.integer?_number lower,
      Json.integer?_string lower upper]
    by_cases half : v < 2 ^ 63
    · rw [if_pos half]
    · -- no number form, and the text form out of range
      have small : w.maxSigned < 2 ^ 63 :=
        maxSigned_lt_of_ne fun wide => outside ⟨wide, Int.not_lt.1 half⟩
      rw [if_neg half]
      refine iff_of_false ?_ ?_
      · rintro ⟨_, read, -⟩
        cases read
      · rintro ⟨_, read, fits, -⟩
        cases read
        omega

/-- **The forms of an integer are interchangeable** (`FormsAgree`), but in the
upper half of the 64-bit range for signed integers of 128 bits. There the text
gives the integer and the number is refused. -/
theorem integer_forms_agree_iff {s : Shape} (takes : s.TakesIntegers) (lower : -2 ^ 63 ≤ v)
    (upper : v < 2 ^ 64) :
    (s.FormsAgree v ↔ ¬ (s = .signed .w128 ∧ 2 ^ 63 ≤ v)) ∧
    (s = .signed .w128 → 2 ^ 63 ≤ v →
      s.ofJson (.number (.integer v)) =
        .error ⟨[], .unexpected (.shape (.signed .w128)) "number"⟩ ∧
      s.ofJson (.string (toString v)) = .ok (.signed v)) := by
  constructor
  · cases s with
    | unsigned w => exact iff_of_true (formsAgree_unsigned w upper) (by simp)
    | felt => exact iff_of_true (formsAgree_felt lower upper) (by simp)
    | signed w => rw [formsAgree_signed_iff lower upper, signed.injEq]
    | bool | fixed | bytes | record | sequence | tuple => exact takes.elim
  · rintro rfl half
    exact ofJson_upperHalf half upper

/-- The `greatest` integer of 64 bits, as an element and as a signed integer of
either width. -/
theorem integer_forms_agree_iff_greatest :
    let greatest : Int := 2 ^ 64 - 1
    felt.TakesIntegers ∧ (signed .w64).TakesIntegers ∧ (signed .w128).TakesIntegers ∧
      -2 ^ 63 ≤ greatest ∧ greatest < 2 ^ 64 ∧ 2 ^ 63 ≤ greatest ∧
      felt.FormsAgree greatest ∧ (signed .w64).FormsAgree greatest ∧
      (signed .w128).ofJson (.number (.integer greatest)) =
        .error ⟨[], .unexpected (.shape (.signed .w128)) "number"⟩ ∧
      (signed .w128).ofJson (.string (toString greatest)) = .ok (.signed greatest) := by
  intro greatest
  have lower : -2 ^ 63 ≤ greatest := by decide
  have upper : greatest < 2 ^ 64 := by decide
  have half : 2 ^ 63 ≤ greatest := by decide
  have element := integer_forms_agree_iff (s := felt) trivial lower upper
  have narrow := integer_forms_agree_iff (s := signed .w64) trivial lower upper
  have wide := integer_forms_agree_iff (s := signed .w128) trivial lower upper
  exact ⟨trivial, trivial, trivial, lower, upper, half, element.1.2 (by simp), narrow.1.2 (by simp),
    wide.2 rfl half⟩

/-- The first integer beyond those of 64 bits with a sign, `2 ^ 63`, is read
from its text only. -/
theorem number_form_refused :
    let v : Int := 2 ^ 63
    ¬ (signed .w128).FormsAgree v ∧
      (signed .w128).ofJson (.number (.integer v)) =
        .error ⟨[], .unexpected (.shape (.signed .w128)) "number"⟩ ∧
      (signed .w128).ofJson (.string (toString v)) = .ok (.signed v) := by
  intro v
  have lower : -2 ^ 63 ≤ v := by decide
  have upper : v < 2 ^ 64 := by decide
  have half : 2 ^ 63 ≤ v := by decide
  exact ⟨fun agree => (formsAgree_signed_iff lower upper).1 agree ⟨rfl, half⟩,
    ofJson_upperHalf half upper⟩

end Shape

end FeltWire

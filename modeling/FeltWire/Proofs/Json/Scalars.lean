import FeltWire.Json.Values
import FeltWire.Proofs.Codec.Scalars
import FeltWire.Proofs.Fixed.Doubles
import FeltWire.Proofs.Numeral
import FeltWire.Proofs.Occurrence

/-!
# Documents of scalars

A scalar is shown in one form and read from several. What is read from a
document always has a word, since the bounds are those of the width; and what is
shown is read back, whichever form its size gave it.

## Main results

* `ofJson_unsigned_iff`, `ofJson_signed_iff`, `ofJson_bool_iff`,
  `ofJson_fixed_iff`, `ofJson_bytes_iff`: which documents give which scalars and
  byte strings
* `exists_word_of_ofJson`: a scalar that a document gives has a word
* `ofJson_toJson_scalar`: a scalar is read from what it is shown as
-/

namespace FeltWire

namespace Json

theorem wanting_eq_ok_iff {α : Type} {wanted : Wanted} {j : Json} {x : Option α} {a : α} :
    j.wanting wanted x = .ok a ↔ x = some a := by
  cases x <;> simp [wanting, unexpected]

end Json

namespace Shape

variable {j : Json} {v : Value}

/-! ## What documents give -/

theorem ofJson_unsigned_iff {w : Width} : (unsigned w).ofJson j = .ok v ↔
    ∃ n, j.natural? = some n ∧ n ≤ w.maxUnsigned ∧ .unsigned n = v := by
  simp only [ofJson, atRoot_eq_ok, Json.unsigned, bind_eq_ok_iff, Json.wanting_eq_ok_iff]
  refine exists_congr fun n => and_congr_right fun _ => ?_
  split
  · next fits => simp only [pure_eq_ok_iff, fits, true_and]
  · next large => simp only [throw_ne_ok, large, false_and]

theorem ofJson_signed_iff {w : Width} : (signed w).ofJson j = .ok v ↔
    ∃ n, j.integer? = some n ∧ (w.minSigned ≤ n ∧ n ≤ w.maxSigned) ∧ .signed n = v := by
  simp only [ofJson, atRoot_eq_ok, Json.signed, bind_eq_ok_iff, Json.wanting_eq_ok_iff]
  refine exists_congr fun n => and_congr_right fun _ => ?_
  split
  · next fits => simp only [pure_eq_ok_iff, fits, true_and, and_self]
  · next large => simp only [throw_ne_ok, large, false_and]

theorem ofJson_bool_iff : bool.ofJson j = .ok v ↔ ∃ b, j = .bool b ∧ .bool b = v := by
  cases j <;> simp [ofJson, Json.boolean, Json.unexpected]

theorem exists_felt_of_ofJson (h : felt.ofJson j = .ok v) : ∃ x, .felt x = v := by
  rw [ofJson, atRoot_eq_ok] at h
  unfold Json.felt at h
  split at h
  · split at h
    · exact ⟨_, Except.ok.inj h⟩
    · exact ⟨_, Except.ok.inj h⟩
    · cases h
  · obtain ⟨x, -, rfl⟩ := map_eq_ok_iff.1 (mapError_eq_ok_iff.1 h)
    exact ⟨x, rfl⟩
  · cases h

theorem ofJson_fixed_iff {scale : UInt32} : (fixed scale).ofJson j = .ok v ↔
    ∃ n x, j = .number n ∧ Fixed.ofBinary64 n.toBinary64 scale = .ok x ∧ .fixed x = v := by
  cases j <;>
    simp [ofJson, Json.fixed, Json.unexpected, mapError_eq_ok_iff, map_eq_ok_iff]

theorem ofJson_bytes_iff : bytes.ofJson j = .ok v ↔
    ∃ text, j = .string text ∧ .bytes (Utf8.encode text) = v := by
  cases j <;> simp [ofJson, Json.byteString, Json.unexpected]

/-- What has a word (`Shape.word`) has no components. -/
theorem components_of_word {s : Shape} {x : Felt} (written : s.word v = .ok x) :
    v.components = [] := by
  cases v with
  | record | sequence | tuple => cases s <;> cases written
  | _ => rfl

/-- **A scalar that a document gives has a word**: `ofJson` gives no value that
`Shape.word` refuses. -/
theorem exists_word_of_ofJson {s : Shape} (scalar : s.IsScalar) (h : s.ofJson j = .ok v) :
    ∃ x, s.word v = .ok x := by
  cases s with
  | unsigned w =>
    obtain ⟨n, -, fits, rfl⟩ := ofJson_unsigned_iff.1 h
    exact ⟨_, encodeUnsigned_eq_ok_iff.2 ⟨fits, rfl⟩⟩
  | signed w =>
    obtain ⟨n, -, fits, rfl⟩ := ofJson_signed_iff.1 h
    exact ⟨_, encodeSigned_eq_ok_iff.2 ⟨fits, rfl⟩⟩
  | bool =>
    obtain ⟨b, -, rfl⟩ := ofJson_bool_iff.1 h
    exact ⟨_, rfl⟩
  | felt =>
    obtain ⟨x, rfl⟩ := exists_felt_of_ofJson h
    exact ⟨_, rfl⟩
  | fixed scale =>
    obtain ⟨n, x, -, made, rfl⟩ := ofJson_fixed_iff.1 h
    exact ⟨_, if_pos (Fixed.ofBinary64_eq_ok_iff.1 made).1⟩
  | bytes | record | sequence | tuple => exact scalar.elim

/-! ## What scalars are shown as -/

/-- A fixed-point number is shown if its double is finite, and then as that
double (`Fixed.toBinary64`). -/
theorem toJson_fixed_iff {scale : UInt32} {x : Fixed} :
    (fixed scale).toJson (.fixed x) = .ok j ↔
      x.toBinary64.isFinite = true ∧ .number (.double x.toBinary64) = j := by
  rw [toJson, atRoot_eq_ok, jsonOfBinary64?]
  cases x.toBinary64.isFinite <;> simp [showing, unexpectedValue]

/-- A byte string is shown if it is a text, that of `Utf8.decode?`. -/
theorem toJson_bytes_iff {data : List UInt8} :
    bytes.toJson (.bytes data) = .ok j ↔ ∃ text, data = Utf8.encode text ∧ .string text = j := by
  rw [toJson, atRoot_eq_ok, byteStringToJson]
  simp only [← Utf8.decode?_eq_some_iff]
  cases Utf8.decode? data <;> simp

/-- A scalar that has a word is shown by `toJson`; a fixed-point number, if its
double is finite. -/
theorem exists_toJson_scalar_iff {s : Shape} {x : Felt} (scalar : s.IsScalar)
    (written : s.word v = .ok x) :
    (∃ j, s.toJson v = .ok j) ↔ ∀ f, v = .fixed f → f.toBinary64.isFinite = true := by
  have read := (ofWord_eq_ok_iff scalar).2 written
  cases s with
  | unsigned w | signed w | bool =>
    obtain ⟨_, -, rfl⟩ := map_eq_ok_iff.1 read
    exact iff_of_true ⟨_, rfl⟩ (by simp)
  | felt =>
    cases read
    exact iff_of_true ⟨_, rfl⟩ (by simp)
  | fixed scale =>
    obtain ⟨f, -, rfl⟩ := map_eq_ok_iff.1 read
    simp [toJson_fixed_iff]
  | bytes | record | sequence | tuple => exact scalar.elim

/-! ## What is shown is read back -/

/-- The form of a natural number `n`, whichever it is, gives the number. -/
theorem natural?_form {n : Nat} (fits : n < 2 ^ 128) :
    (if n < 2 ^ 64 then Json.number (.integer n) else .string (toString n)).natural? = some n := by
  split
  · next small =>
    have range : (0 : Int) ≤ n ∧ (n : Int) < 2 ^ 64 := by omega
    rw [Json.natural?, JsonNumber.natural?, if_pos range, Int.toNat_natCast]
  · rw [Json.natural?, Numeral.natural?_toString, Option.filter_some, if_pos (decide_eq_true fits)]

/-- The form of an integer `n`, whichever it is, gives the integer. -/
theorem integer?_form {n : Int} (fits : -2 ^ 127 ≤ n ∧ n < 2 ^ 127) :
    (if -2 ^ 63 ≤ n ∧ n < 2 ^ 63 then Json.number (.integer n)
      else .string (toString n)).integer? = some n := by
  split
  · next small => rw [Json.integer?, JsonNumber.integer?, if_pos small]
  · rw [Json.integer?, Numeral.integer?_toString, Option.filter_some, if_pos (decide_eq_true fits)]

/-- **A scalar is read from what it is shown as**; a fixed-point number, if the
double that it is shown as gives it back (`faithful`). -/
theorem ofJson_toJson_scalar {s : Shape} {x : Felt} (scalar : s.IsScalar)
    (written : s.word v = .ok x) (shown : s.toJson v = .ok j)
    (faithful : ∀ f, v = .fixed f → Fixed.ofBinary64 f.toBinary64 f.scale = .ok f) :
    s.ofJson j = .ok v := by
  have read := (ofWord_eq_ok_iff scalar).2 written
  cases s with
  | unsigned w =>
    obtain ⟨n, -, rfl⟩ := map_eq_ok_iff.1 read
    obtain ⟨fits, -⟩ := encodeUnsigned_eq_ok_iff.1 written
    cases shown
    have bound := w.maxUnsigned_lt
    exact ofJson_unsigned_iff.2 ⟨n, natural?_form (by omega), fits, rfl⟩
  | signed w =>
    obtain ⟨n, -, rfl⟩ := map_eq_ok_iff.1 read
    obtain ⟨fits, -⟩ := encodeSigned_eq_ok_iff.1 written
    cases shown
    have bounds := w.signed_range
    exact ofJson_signed_iff.2 ⟨n, integer?_form (by omega), fits, rfl⟩
  | bool =>
    obtain ⟨b, -, rfl⟩ := map_eq_ok_iff.1 read
    cases shown
    rfl
  | felt =>
    cases read
    cases shown
    rw [ofJson, Json.felt, if_pos x.isNumeral_hex, x.parse_hex]
    rfl
  | fixed scale =>
    obtain ⟨f, -, rfl⟩ := map_eq_ok_iff.1 read
    obtain ⟨-, rfl⟩ := toJson_fixed_iff.1 shown
    have same := (Fixed.encodeAt_eq_ok_iff.1 written).1
    exact ofJson_fixed_iff.2 ⟨_, f, rfl, same ▸ faithful f rfl, rfl⟩
  | bytes | record | sequence | tuple => exact scalar.elim

end Shape

end FeltWire

import FeltWire.Proofs.Codec.Exact
import FeltWire.Proofs.Occurrence

/-!
# Sizes that a shape fixes

A shape fixes the number of words unless byte strings or sequences occur in it.
The number is then that of every encoding, and bytes of any other length are
refused. It is not a mere bound either: as many words of zeros are a value of
the shape. A shape that does not fix the number takes a word at least, so that
nothing is decoded from no bytes.

## Main definitions

* `Shape.Varies`: the size depends on the value

## Main results

* `fixedWords_eq_none_iff`: which shapes fix no number of words
* `exists_encodeBytes_zeros`: words of zeros are a value of a shape that fixes
  their number
* `fixed_sizes`: what a fixed number of words says of encodings and of decoding,
  and what it says that there is none
-/

namespace FeltWire.Shape

/-! ## Shapes whose size depends on the value -/

/-- The size of a byte string or a sequence depends on the value; that of other
shapes only as their components do. -/
def Varies : Shape → Prop
  | .bytes | .sequence _ => True
  | _ => False

theorem itemWords_eq_none_iff {shapes : List Shape} :
    itemWords shapes = none ↔ ∃ s ∈ shapes, s.fixedWords = none := by
  induction shapes with
  | nil => simp [itemWords]
  | cons s shapes ih =>
    rw [itemWords]
    cases head : s.fixedWords with
    | none => simp [head]
    | some words => cases tail : itemWords shapes <;> simp_all

/-- Something that `Varies` occurs in a record or a tuple exactly if it does in
a component. -/
theorem exists_varying_iff {s : Shape} (composite : ¬s.Varies) :
    (∃ t : Shape, t.Occurs s ∧ t.Varies) ↔
      ∃ c ∈ s.components, ∃ t : Shape, t.Occurs c ∧ t.Varies := by
  constructor
  · rintro ⟨t, occurs, varies⟩
    rcases occurs with _ | ⟨mem, inner⟩
    · exact absurd varies composite
    · exact ⟨_, mem, t, inner, varies⟩
  · rintro ⟨c, mem, t, inner, varies⟩
    exact ⟨t, .component mem inner, varies⟩

/-- **No number of words is fixed** exactly if byte strings or sequences occur
in the shape, by induction over it. -/
theorem fixedWords_eq_none_iff (s : Shape) :
    s.fixedWords = none ↔ ∃ t : Shape, t.Occurs s ∧ t.Varies := by
  induction s using inductScalar with
  | scalar s scalar =>
    cases s with
    | bytes | record | sequence | tuple => exact scalar.elim
    | _ => rw [exists_varying_iff id]; simp [fixedWords, components]
  | bytes => exact iff_of_true rfl ⟨.bytes, .here, trivial⟩
  | sequence s ih => exact iff_of_true rfl ⟨.sequence s, .here, trivial⟩
  | record name fields ih =>
    have each : ∀ c ∈ fields.map Prod.snd, (c.fixedWords = none ↔
        ∃ t : Shape, t.Occurs c ∧ t.Varies) := List.forall_mem_map.2 ih
    rw [exists_varying_iff id, fixedWords, fieldWords_eq, itemWords_eq_none_iff]
    exact exists_congr fun c => and_congr_right fun mem => each c mem
  | tuple items ih =>
    rw [exists_varying_iff id, fixedWords, itemWords_eq_none_iff]
    exact exists_congr fun c => and_congr_right fun mem => ih c mem

/-! ## Words of zeros -/

/-- The word of zeros is a scalar of every kind. -/
theorem exists_word_zero {s : Shape} (h : s.IsScalar) : ∃ v, s.word v = .ok (.reduce 0) := by
  cases s with
  | unsigned w => exact ⟨.unsigned 0, encodeUnsigned_eq_ok_iff.2 ⟨Nat.zero_le _, rfl⟩⟩
  | signed w =>
    have signs := w.signed_range
    exact ⟨.signed 0, encodeSigned_eq_ok_iff.2 ⟨⟨by omega, by omega⟩, rfl⟩⟩
  | bool => exact ⟨.bool false, rfl⟩
  | felt => exact ⟨.felt (.reduce 0), rfl⟩
  | fixed scale => exact ⟨.fixed ⟨0, scale⟩, Fixed.encodeAt_eq_ok_iff.2 ⟨rfl, rfl⟩⟩
  | bytes | record | sequence | tuple => exact h.elim

/-- The bytes of `words` words of zeros. -/
def zeros (words : Nat) : List UInt8 := List.replicate (words * wordSize) 0

theorem zeros_add (m n : Nat) : zeros (m + n) = zeros m ++ zeros n := by
  rw [zeros, zeros, zeros, List.replicate_append_replicate, Nat.add_mul]

/-- Components that all are words of zeros are so together; `n` is the sum that
`itemWords` gives. -/
theorem exists_encodings_zeros {shapes : List Shape} {n : Nat} (words : itemWords shapes = some n)
    (each : ∀ s ∈ shapes, ∀ n, s.fixedWords = some n → ∃ v, s.encodeBytes v = .ok (zeros n)) :
    ∃ vs encodings, Encodings shapes vs encodings ∧ encodings.flatten = zeros n := by
  induction shapes generalizing n with
  | nil =>
    cases words
    exact ⟨[], [], .nil, rfl⟩
  | cons s shapes ih =>
    rw [itemWords] at words
    rcases head : s.fixedWords with _ | m
    · simp [head] at words
    rcases tail : itemWords shapes with _ | k
    · simp [head, tail] at words
    obtain rfl : m + k = n := by simpa [head, tail] using words
    obtain ⟨v, first⟩ := each s List.mem_cons_self m head
    obtain ⟨vs, encodings, others, joined⟩ := ih tail fun t ht => each t (List.mem_cons_of_mem _ ht)
    refine ⟨v :: vs, zeros m :: encodings, .cons first others, ?_⟩
    rw [List.flatten_cons, joined, zeros_add]

/-- **Words of zeros are a value** of a shape that fixes their number `n`. -/
theorem exists_encodeBytes_zeros {s : Shape} {n : Nat} (words : s.fixedWords = some n) :
    ∃ v, s.encodeBytes v = .ok (zeros n) := by
  induction s using inductScalar generalizing n with
  | scalar s scalar =>
    obtain ⟨v, word⟩ := exists_word_zero scalar
    obtain rfl : 1 = n := by
      cases s with
      | bytes | record | sequence | tuple => exact scalar.elim
      | _ => exact Option.some.inj words
    exact ⟨v, (encodeBytes_scalar_iff scalar).2 ⟨_, word, rfl⟩⟩
  | bytes | sequence => cases words
  | record name fields ih =>
    rw [fixedWords, fieldWords_eq] at words
    obtain ⟨vs, encodings, each, joined⟩ := exists_encodings_zeros words (List.forall_mem_map.2 @ih)
    exact ⟨.record vs, encodeBytes_record_iff.2 ⟨vs, encodings, rfl, each, joined⟩⟩
  | tuple items ih =>
    obtain ⟨vs, encodings, each, joined⟩ := exists_encodings_zeros words @ih
    exact ⟨.tuple vs, encodeBytes_tuple_iff.2 ⟨vs, encodings, rfl, each, joined⟩⟩

/-! ## Sizes of what is written and read -/

variable {s : Shape} {bytes : List UInt8}

/-- What no value is written as is refused, since `decode` accepts nothing
else. -/
theorem exists_decode_eq_error (h : ∀ v, s.encodeBytes v ≠ .ok bytes) :
    ∃ e, s.decode bytes = .error e := by
  rcases read : s.decode bytes with e | v
  · exact ⟨e, rfl⟩
  · exact absurd (decode_eq_ok_iff.1 read) (h v)

/-- **Fixed sizes.** A number of words that a shape fixes (`fixedWords`) is that
of every encoding; bytes of any other length are refused, and as many zeros are
decoded. A shape that fixes none has no encoding of less than a word, and
decodes nothing from no bytes. It is one in which byte strings or sequences
occur (`Occurs`, `Varies`). -/
theorem fixed_sizes (s : Shape) :
    (∀ n, s.fixedWords = some n →
      (∀ v bytes, s.encodeBytes v = .ok bytes → bytes.length = 32 * n) ∧
      (∀ bytes, bytes.length ≠ 32 * n → ∃ e, s.decode bytes = .error e) ∧
      ∃ v, s.decode (List.replicate (32 * n) 0) = .ok v) ∧
    (s.fixedWords = none →
      (∀ v bytes, s.encodeBytes v = .ok bytes → 32 ≤ bytes.length) ∧
      ∃ e, s.decode [] = .error e) ∧
    (s.fixedWords = none ↔ ∃ t : Shape, t.Occurs s ∧ t.Varies) := by
  refine ⟨fun n words => ?_, fun words => ?_, fixedWords_eq_none_iff s⟩
  · have size : ∀ v bytes, s.encodeBytes v = .ok bytes → bytes.length = 32 * n := by
      intro v bytes encoded
      have allowed := allows_length encoded
      rw [words] at allowed
      exact Nat.mul_comm 32 n ▸ allowed
    refine ⟨size, fun bytes other => ?_, ?_⟩
    · exact exists_decode_eq_error fun v encoded => other (size v bytes encoded)
    · obtain ⟨v, encoded⟩ := exists_encodeBytes_zeros words
      rw [zeros, Nat.mul_comm] at encoded
      exact ⟨v, decode_eq_ok_iff.2 encoded⟩
  · have size : ∀ v bytes, s.encodeBytes v = .ok bytes → 32 ≤ bytes.length := by
      intro v bytes encoded
      have allowed := allows_length encoded
      rwa [words] at allowed
    refine ⟨size, exists_decode_eq_error fun v encoded => ?_⟩
    exact absurd (size v [] encoded) (by decide)

/-- A `line` of three words, one of whose fields takes none, and lines without a
fixed number. -/
theorem fixed_sizes_line :
    let line : Shape := .record "Line" [("flags", .tuple []), ("change", .signed .w8),
      ("state", .tuple [.bool, .felt])]
    let lines : Shape := .record "Lines" [("open", .bool), ("lines", .sequence line)]
    let v : Value := .record [.tuple [], .signed (-1), .tuple [.bool true, .felt (.reduce 7)]]
    line.fixedWords = some 3 ∧ lines.fixedWords = none ∧
      ∃ bytes, line.encodeBytes v = .ok bytes ∧ bytes.length = 32 * 3 ∧
        (∃ e, line.decode (bytes ++ [0]) = .error e) ∧
        (∃ w, line.decode (List.replicate (32 * 3) 0) = .ok w) ∧
        ∃ long, lines.encodeBytes (.record [.bool true, .sequence []]) = .ok long ∧
          32 ≤ long.length ∧ (∃ e, lines.decode [] = .error e) ∧
          ∃ t : Shape, t.Occurs lines ∧ t.Varies := by
  intro line lines v
  obtain ⟨fixed, -⟩ := fixed_sizes line
  obtain ⟨size, others, zeros⟩ := fixed 3 rfl
  obtain ⟨-, varying, occurs⟩ := fixed_sizes lines
  obtain ⟨least, nothing⟩ := varying rfl
  obtain ⟨bytes, encoded⟩ : ∃ bytes, line.encodeBytes v = .ok bytes := ⟨_, rfl⟩
  obtain ⟨long, encoded'⟩ :
      ∃ long, lines.encodeBytes (.record [.bool true, .sequence []]) = .ok long := ⟨_, rfl⟩
  have longer : (bytes ++ [0]).length ≠ 32 * 3 := by
    rw [List.length_append, size v bytes encoded]
    decide
  exact ⟨rfl, rfl, bytes, encoded, size v bytes encoded, others _ longer, zeros, long, encoded',
    least _ long encoded', nothing, occurs.1 rfl⟩

end FeltWire.Shape

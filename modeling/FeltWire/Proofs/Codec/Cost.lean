import FeltWire.Proofs.Codec.Exact
import FeltWire.Proofs.Occurrence

/-!
# What is decoded is paid for

However large the numbers in front of sequences and byte strings are, a value
that is decoded is no larger than its bytes allow: each element of a sequence,
at whatever depth, costs a word of 32 bytes, and each 31 bytes of a byte string
cost one.

## Why the elements need a word of their own

The words of a nested element pay for the elements inside it, so they cannot pay
for the element too. What is left over is the length in front of each sequence:
it pays for the sequence as an element of the next one. Scalars and byte strings
have a word to spare as well, and a record or a tuple has one if any of its
components does. Only shapes that take no words have none, and these are the
ones that a sequence refuses.

## Main definitions

* `Value.total`: the sum of a weight over all that occurs in a value
* `Value.elementCount`, `Value.byteCount`: the elements of all sequences, the
  bytes of all byte strings
* `Shape.spareWords`, `Shape.spareWordsAll`: the word that no element inside a
  value uses up, and those of several components
* `Shape.PaidBy`: the number of bytes pays for a value

## Main results

* `Encodings.paid`: the bytes of components pay for the components
* `paidBy_scalar`, `paidBy_bytes`, `paidBy_sequence`, `paidBy_length`: the bytes
  of an encoding pay for its value, by kinds and for all shapes
* `decoded_is_paid_for`: both bounds for what is decoded, and where a length
  that nothing pays for is refused
-/

namespace FeltWire

/-! ## Weights of values -/

namespace Value

mutual

/-- **The sum of a `weight`** over a value and all that occurs in it, each as
often as it occurs. -/
def total (weight : Value → Nat) : Value → Nat
  | .record vs => weight (.record vs) + totals weight vs
  | .sequence vs => weight (.sequence vs) + totals weight vs
  | .tuple vs => weight (.tuple vs) + totals weight vs
  | v => weight v

/-- The sum of the `weight` over a list of values. -/
def totals (weight : Value → Nat) : List Value → Nat
  | [] => 0
  | v :: vs => v.total weight + totals weight vs

end

/-- The elements that a value has as a `sequence` itself. -/
def ownElements : Value → Nat
  | .sequence vs => vs.length
  | _ => 0

/-- The bytes that a value has as a byte string itself. -/
def ownBytes : Value → Nat
  | .bytes data => data.length
  | _ => 0

/-- The number of elements of all sequences in a value, over all levels
together: the `total` of `ownElements`. -/
def elementCount (v : Value) : Nat := v.total ownElements

/-- The number of bytes of all byte strings in a value: the `total` of
`ownBytes`. -/
def byteCount (v : Value) : Nat := v.total ownBytes

theorem total_eq (weight : Value → Nat) (v : Value) :
    v.total weight = weight v + totals weight v.components := by
  cases v <;> rfl

theorem elementCount_eq (v : Value) :
    v.elementCount = v.ownElements + totals ownElements v.components := total_eq _ v

theorem byteCount_eq (v : Value) :
    v.byteCount = v.ownBytes + totals ownBytes v.components := total_eq _ v

end Value

namespace Shape

/-! ## Words to spare -/

/-- The word that no element inside a value uses up: values that take no words
have none. It pays for the value where this is an element itself. -/
def spareWords (s : Shape) : Nat := if s.fixedWords = some 0 then 0 else 1

theorem spareWords_le_one (s : Shape) : s.spareWords ≤ 1 := by
  unfold spareWords
  split <;> decide

/-- The `spareWords` of components together. -/
def spareWordsAll : List Shape → Nat
  | [] => 0
  | s :: shapes => s.spareWords + spareWordsAll shapes

theorem spareWordsAll_replicate (count : Nat) (s : Shape) :
    spareWordsAll (List.replicate count s) = count * s.spareWords := by
  induction count with
  | zero => exact (Nat.zero_mul _).symm
  | succ count ih => rw [List.replicate_succ, spareWordsAll, ih, Nat.add_comm, Nat.succ_mul]

/-- Components that take words have one to spare, since one of them takes
words. -/
theorem one_le_spareWordsAll {shapes : List Shape} (h : itemWords shapes ≠ some 0) :
    1 ≤ spareWordsAll shapes := by
  induction shapes with
  | nil => exact absurd rfl h
  | cons s shapes ih =>
    rw [spareWordsAll]
    by_cases head : s.fixedWords = some 0
    · have tail : itemWords shapes ≠ some 0 := by
        intro none
        apply h
        rw [itemWords, head, none]
        rfl
      exact Nat.le_add_left_of_le (ih tail)
    · have one : s.spareWords = 1 := if_neg head
      omega

/-- A shape that is made of components spares no more than they do; `h` says
that it takes as many words. -/
theorem spareWords_le_spareWordsAll {s : Shape} {shapes : List Shape}
    (h : s.fixedWords = itemWords shapes) : s.spareWords ≤ spareWordsAll shapes := by
  unfold spareWords
  rw [h]
  split
  · exact Nat.zero_le _
  · next positive => exact one_le_spareWordsAll positive

/-! ## Bytes that pay for values -/

/-- **A number of bytes pays for a value**: its elements cost a word each and
leave the shape its `spareWords`, and its byte strings fill at most `chunkSize`
bytes of each word. -/
structure PaidBy (s : Shape) (v : Value) (size : Nat) : Prop where
  elements : (v.elementCount + s.spareWords) * wordSize ≤ size
  bytes : v.byteCount * wordSize ≤ size * chunkSize

/-- **The bytes of components pay for the components**, each of which keeps its
spare word. The induction is on `Encodings`. -/
theorem Encodings.paid {shapes : List Shape} {vs : List Value} {encodings : List (List UInt8)}
    (h : Encodings shapes vs encodings)
    (each : ∀ s ∈ shapes, ∀ v bytes, s.encodeBytes v = .ok bytes → PaidBy s v bytes.length) :
    (Value.totals Value.ownElements vs + spareWordsAll shapes) * wordSize ≤
        encodings.flatten.length ∧
      Value.totals Value.ownBytes vs * wordSize ≤ encodings.flatten.length * chunkSize := by
  induction h with
  | nil => exact ⟨Nat.le_refl 0, Nat.le_refl 0⟩
  | @cons s v bytes shapes vs encodings head tail ih =>
    have first := each s List.mem_cons_self v bytes head
    have others := ih fun t ht => each t (List.mem_cons_of_mem _ ht)
    have elements := first.elements
    have data := first.bytes
    simp only [Value.elementCount, Value.byteCount, wordSize, chunkSize] at elements data others
    simp only [Value.totals, spareWordsAll, List.flatten_cons, List.length_append,
      wordSize, chunkSize]
    omega

/-- A record or a tuple is paid for by the bytes of its components, having
neither elements nor bytes of its own. -/
theorem PaidBy.of_components {s : Shape} {v : Value} {shapes : List Shape}
    {encodings : List (List UInt8)} (h : Encodings shapes v.components encodings)
    (words : s.fixedWords = itemWords shapes) (no_elements : v.ownElements = 0)
    (no_bytes : v.ownBytes = 0)
    (each : ∀ s ∈ shapes, ∀ v bytes, s.encodeBytes v = .ok bytes → PaidBy s v bytes.length) :
    PaidBy s v encodings.flatten.length := by
  obtain ⟨elements, data⟩ := h.paid each
  constructor
  · have spare := spareWords_le_spareWordsAll words
    calc (v.elementCount + s.spareWords) * wordSize
        ≤ (Value.totals Value.ownElements v.components + spareWordsAll shapes) *
            wordSize := by
          rw [v.elementCount_eq, no_elements, Nat.zero_add]
          exact Nat.mul_le_mul_right _ (Nat.add_le_add_left spare _)
      _ ≤ encodings.flatten.length := elements
  · rwa [v.byteCount_eq, no_bytes, Nat.zero_add]

/-- The word of a scalar is its spare word, as it has no elements. -/
theorem paidBy_scalar {s : Shape} {v : Value} {bytes : List UInt8} (scalar : s.IsScalar)
    (h : s.encodeBytes v = .ok bytes) : PaidBy s v bytes.length := by
  obtain ⟨x, word, rfl⟩ := (encodeBytes_scalar_iff scalar).1 h
  obtain ⟨no_elements, no_bytes⟩ : v.elementCount = 0 ∧ v.byteCount = 0 := by
    cases s with
    | bytes | record | sequence | tuple => exact scalar.elim
    | _ =>
      cases v with
      | bytes | record | sequence | tuple => cases word
      | _ => exact ⟨rfl, rfl⟩
  constructor
  · rw [no_elements, Nat.zero_add, x.length_toBytes]
    calc s.spareWords * wordSize ≤ 1 * wordSize := Nat.mul_le_mul_right _ s.spareWords_le_one
      _ = wordSize := Nat.one_mul _
  · rw [no_bytes, Nat.zero_mul]
    exact Nat.zero_le _

/-- Each full chunk of a byte string has a word, and the bytes left over have
two more than their own. -/
theorem paidBy_bytes {v : Value} {bytes : List UInt8} (h : Shape.bytes.encodeBytes v = .ok bytes) :
    PaidBy .bytes v bytes.length := by
  obtain ⟨data, rfl, encoded⟩ := encodeBytes_bytes_iff.1 h
  obtain ⟨words, written, rfl⟩ := map_eq_ok_iff.1 encoded
  have size : words.length = data.length / 31 + 3 := ByteString.length_of_encode written
  rw [length_wordBytes, size]
  constructor
  · show (0 + 1) * wordSize ≤ _
    exact Nat.mul_le_mul_right _ (by omega)
  · show data.length * 32 ≤ (data.length / 31 + 3) * 32 * 31
    omega

/-- **The length pays for a sequence**, and the spare word of each element for
that element (`PaidBy`). -/
theorem paidBy_sequence {s : Shape} {v : Value} {bytes : List UInt8}
    (h : s.sequence.encodeBytes v = .ok bytes)
    (element : ∀ v bytes, s.encodeBytes v = .ok bytes → PaidBy s v bytes.length) :
    PaidBy s.sequence v bytes.length := by
  obtain ⟨vs, count, encodings, rfl, positive, -, each, rfl⟩ := encodeBytes_sequence_iff.1 h
  have one : s.spareWords = 1 := if_neg positive
  obtain ⟨elements, data⟩ := each.paid fun t ht => by
    obtain rfl := List.eq_of_mem_replicate ht
    exact element
  rw [spareWordsAll_replicate, one, Nat.mul_one] at elements
  rw [List.length_append, Felt.length_toBytes]
  constructor
  · show (vs.length + Value.totals Value.ownElements vs + 1) * 32 ≤ 32 + _
    have own : (Value.totals Value.ownElements vs + vs.length) * 32 ≤ _ := elements
    omega
  · show (0 + Value.totals Value.ownBytes vs) * 32 ≤ (32 + _) * 31
    have own : Value.totals Value.ownBytes vs * 32 ≤ _ * 31 := data
    omega

/-- **The bytes of an encoding pay for its value**, by induction over the
shape. -/
theorem paidBy_length {s : Shape} {v : Value} {bytes : List UInt8}
    (h : s.encodeBytes v = .ok bytes) : PaidBy s v bytes.length := by
  induction s using inductScalar generalizing v bytes with
  | scalar s scalar => exact paidBy_scalar scalar h
  | bytes => exact paidBy_bytes h
  | record name fields ih =>
    obtain ⟨vs, encodings, rfl, each, rfl⟩ := encodeBytes_record_iff.1 h
    apply PaidBy.of_components each (by rw [fixedWords, fieldWords_eq]) rfl rfl
    intro s hs v bytes encoded
    obtain ⟨f, hf, rfl⟩ := List.mem_map.1 hs
    exact ih f hf encoded
  | sequence s ih =>
    apply paidBy_sequence h
    intro v bytes encoded
    exact ih encoded
  | tuple items ih =>
    obtain ⟨vs, encodings, rfl, each, rfl⟩ := encodeBytes_tuple_iff.1 h
    apply PaidBy.of_components each rfl rfl rfl
    intro s hs v bytes encoded
    exact ih s hs encoded

/-! ## Lengths that nothing pays for -/

/-- **A length that nothing pays for** (`short`) is refused where it stands: the
fault is one of the sequence and not of an element, and no more than the length
was read. -/
theorem read_sequence_of_unpaid {element : Shape} {length : Felt} {rest : List UInt8}
    (short : rest.length < 32 * length.val) (position : Nat) :
    ∃ fault after, (sequence element).read.outcome ⟨position, length.toBytes ++ rest⟩ =
      (.error ⟨[], fault⟩, after) ∧ after.position ≤ position + 32 := by
  have counted := Reader.outcome_scalar_append (decodeUnsigned lengthWidth) length position rest
  rw [read_sequence, Reader.outcome_bind]
  rcases checked : element.checkElement with fault | ⟨⟨⟩⟩
  · exact ⟨fault, _, rfl, Nat.le_add_right ..⟩
  have tested (c : Cursor) : (Reader.atRoot (.lift (.ok ()))).outcome c = (.ok (), c) := rfl
  rcases fits : decodeUnsigned lengthWidth length with fault | count
  · have refused : (Reader.atRoot (.scalar (decodeUnsigned lengthWidth))).outcome
        ⟨position, length.toBytes ++ rest⟩ = (.error (.here fault), ⟨position + 32, rest⟩) :=
      Reader.outcome_mapError_eq_error_iff.2 ⟨fault, counted.trans (by rw [fits]; rfl), rfl⟩
    simp only [tested, Reader.outcome_bind, refused]
    exact ⟨fault, _, rfl, Nat.le_refl _⟩
  · have promised : (Reader.atRoot (.scalar (decodeUnsigned lengthWidth))).outcome
        ⟨position, length.toBytes ++ rest⟩ = (.ok count, ⟨position + 32, rest⟩) :=
      Reader.outcome_mapError_eq_ok_iff.2 (counted.trans (by rw [fits]; rfl))
    obtain ⟨small, rfl⟩ := encodeUnsigned_eq_ok_iff.1 (decodeUnsigned_eq_ok_iff.1 fits)
    have below : count ≤ 2 ^ 32 - 1 := small
    have room : 2 ^ 32 - 1 < prime := by decide
    rw [Felt.val_reduce_of_lt (Nat.lt_of_le_of_lt below room)] at short
    -- below saturation all the bytes are asked for
    have unpaid : rest.length < min (count * wordSize) Reader.maxBytes := by
      show _ < min (count * 32) (2 ^ 64 - 1)
      omega
    have missed := (Reader.outcome_require count ⟨position + 32, rest⟩).trans (if_pos unpaid)
    have refused : (Reader.atRoot (.require count)).outcome ⟨position + 32, rest⟩ =
        (.error (.here (.truncated (min (count * wordSize) Reader.maxBytes) rest.length)),
          ⟨position + 32, rest⟩) :=
      Reader.outcome_mapError_eq_error_iff.2 ⟨_, missed, rfl⟩
    simp only [tested, Reader.outcome_bind, promised, refused]
    exact ⟨_, _, rfl, Nat.le_refl _⟩

/-- **What is decoded is paid for.** The sequences of a decoded value have no
more elements, over all levels together (`Value.elementCount`), than its bytes
have words, and its byte strings (`Value.byteCount`) fill at most 31 bytes of
each word. A length in front of a sequence that the bytes behind it do not pay
for is refused before any element is read. -/
theorem decoded_is_paid_for :
    (∀ (s : Shape) (bytes : List UInt8) (v : Value), s.decode bytes = .ok v →
      v.elementCount ≤ bytes.length / 32 ∧ v.byteCount ≤ 31 * bytes.length / 32) ∧
    ∀ (element : Shape) (length : Felt) (position : Nat) (rest : List UInt8),
      rest.length < 32 * length.val →
        ∃ fault after, (sequence element).read.outcome ⟨position, length.toBytes ++ rest⟩ =
          (.error ⟨[], fault⟩, after) ∧ after.position ≤ position + 32 := by
  constructor
  · intro s bytes v decoded
    obtain ⟨elements, data⟩ := paidBy_length (decode_eq_ok_iff.1 decoded)
    unfold wordSize at elements data
    unfold chunkSize at data
    omega
  · intro element length position rest short
    exact read_sequence_of_unpaid short position

theorem decoded_is_paid_for_rows :
    let s : Shape := .tuple [.sequence (.sequence .bool), .bytes]
    let words : List Felt := [.reduce 2, .reduce 2, .reduce 1, .reduce 0, .reduce 0,
      .reduce 0, .reduce 0x6869, .reduce 2]
    let v : Value := .tuple [.sequence [.sequence [.bool true, .bool false], .sequence []],
      .bytes [0x68, 0x69]]
    s.decode (wordBytes words) = .ok v ∧ v.elementCount = 4 ∧ v.byteCount = 2 ∧
      4 ≤ (wordBytes words).length / 32 ∧ 2 ≤ 31 * (wordBytes words).length / 32 ∧
      (wordBytes [.reduce 1]).length < 32 * (Felt.reduce 9).val ∧
      ∃ fault after, (sequence .bool).read.outcome
          ⟨0, (Felt.reduce 9).toBytes ++ wordBytes [.reduce 1]⟩ = (.error ⟨[], fault⟩, after) ∧
        after.position ≤ 0 + 32 := by
  intro s words v
  have written : s.encode v = .ok words := rfl
  have decoded : s.decode (wordBytes words) = .ok v :=
    decode_eq_ok_iff.2 (encodeBytes_eq_ok_iff.2 ⟨words, written, rfl⟩)
  have short : (wordBytes [.reduce 1]).length < 32 * (Felt.reduce 9).val := by
    rw [length_wordBytes, Felt.val_reduce_of_lt (by decide)]
    decide
  obtain ⟨elements, data⟩ := decoded_is_paid_for.1 s (wordBytes words) v decoded
  exact ⟨decoded, rfl, rfl, elements, data, short,
    decoded_is_paid_for.2 .bool (.reduce 9) 0 (wordBytes [.reduce 1]) short⟩

end Shape

end FeltWire

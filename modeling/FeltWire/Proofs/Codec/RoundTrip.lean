import FeltWire.Proofs.Codec.Exact

/-!
# Round trip and canonical form

A value that is written under a shape is read back under that shape, from its
bytes and from its words; and a value is read only from the bytes that it is
written as. Both hold for every shape, however its records, tuples and sequences
are nested.

## Main results

* `round_trip`: what is encoded decodes to the value, as bytes and as words
* `canonical_form`: what decodes is the encoding of its value, so that no value
  has two encodings
-/

namespace FeltWire.Shape

/-- A record of every kind of value, one of its fields taking no words. -/
def orderShape : Shape :=
  .record "Order" [("flags", .tuple []), ("id", .unsigned .w32), ("note", .bytes),
    ("lines", .sequence (.record "Line" [("change", .signed .w64), ("open", .bool)])),
    ("price", .tuple [.felt, .fixed 40])]

/-- An order of the shape `orderShape` whose note is longer than a chunk. -/
def orderValue : Value :=
  .record [.tuple [], .unsigned 7, .bytes (List.replicate 33 0x61),
    .sequence [.record [.signed (-3), .bool true], .record [.signed 4, .bool false]],
    .tuple [.felt (.reduce 11), .fixed ⟨-5, 40⟩]]

/-- **Round trip.** A value is encoded as bytes (`encodeBytes`) exactly if it is
encoded as words (`encode`). The bytes are those of the words, each in 32 bytes
of which the first is the most significant, and the value is decoded from
either. -/
theorem round_trip (s : Shape) (v : Value) :
    ((∃ bytes, s.encodeBytes v = .ok bytes) ↔ ∃ words, s.encode v = .ok words) ∧
    ∀ bytes, s.encodeBytes v = .ok bytes →
      s.decode bytes = .ok v ∧
        ∃ words, s.encode v = .ok words ∧
          bytes = words.flatMap (fun x => BigEndian.encode 32 x.val) ∧
          s.decodeWords words = .ok v := by
  constructor
  · constructor
    · rintro ⟨bytes, encoded⟩
      obtain ⟨words, written, -⟩ := encodeBytes_eq_ok_iff.1 encoded
      exact ⟨words, written⟩
    · rintro ⟨words, written⟩
      exact ⟨_, encodeBytes_eq_ok_iff.2 ⟨words, written, rfl⟩⟩
  · intro bytes encoded
    have decoded := decode_eq_ok_iff.2 encoded
    obtain ⟨words, written, rfl⟩ := encodeBytes_eq_ok_iff.1 encoded
    exact ⟨decoded, words, written, rfl, decoded⟩

theorem round_trip_order : ∃ bytes, orderShape.encodeBytes orderValue = .ok bytes ∧
    orderShape.decode bytes = .ok orderValue ∧
      ∃ words, orderShape.encode orderValue = .ok words ∧
        bytes = words.flatMap (fun x => BigEndian.encode 32 x.val) ∧
        orderShape.decodeWords words = .ok orderValue :=
  ⟨_, rfl, (round_trip orderShape orderValue).2 _ rfl⟩

/-- **Canonical form.** What decodes to a value is the encoding of that value.
Hence the bytes that `decode` accepts are exactly the encodings, and no value is
decoded from two runs of bytes. -/
theorem canonical_form (s : Shape) :
    (∀ bytes v, s.decode bytes = .ok v → s.encodeBytes v = .ok bytes) ∧
    (∀ bytes, (∃ v, s.decode bytes = .ok v) ↔ ∃ v, s.encodeBytes v = .ok bytes) ∧
    ∀ bytes bytes' v, s.decode bytes = .ok v → s.decode bytes' = .ok v → bytes = bytes' := by
  refine ⟨fun bytes v decoded => decode_eq_ok_iff.1 decoded, fun bytes => ?_,
    fun bytes bytes' v decoded decoded' => ?_⟩
  · simp only [decode_eq_ok_iff]
  · have encoded := decode_eq_ok_iff.1 decoded
    rw [decode_eq_ok_iff.1 decoded'] at encoded
    exact (Except.ok.inj encoded).symm

theorem canonical_form_pair :
    let s : Shape := .tuple [.signed .w8, .bytes]
    let bytes := wordBytes [.ofInt (-1), .reduce 0, .reduce 0x6869, .reduce 2]
    let v : Value := .tuple [.signed (-1), .bytes [0x68, 0x69]]
    s.decode bytes = .ok v ∧ s.encodeBytes v = .ok bytes ∧
      ∀ bytes', s.decode bytes' = .ok v → bytes' = bytes :=
  ⟨rfl, (canonical_form _).1 _ _ rfl, fun bytes' decoded =>
    (canonical_form _).2.2 bytes' _ _ decoded rfl⟩

end FeltWire.Shape

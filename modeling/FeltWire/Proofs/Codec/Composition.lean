import FeltWire.Proofs.Codec.Exact
import FeltWire.Proofs.Codec.Threading

/-!
# Encodings are compositional

The encoding of a composite value is made of the encodings of its components,
one after another, and the number of elements in front of them if it is a
sequence. It exists exactly if those of the components do, and the encodings of
components that were made separately can be joined and decoded.

## Why this is not the definition of encoding

Values are written onto one writer and read by one cursor. A component is
therefore written behind all that stands before it and read in front of all that
follows. That neither matters has to be known of every component before their
encodings can be treated as separate: `written_write` is this law for writing
and `exact_read` the one for reading, both by induction on the shape.

## Main definitions

* `Shape.Joins`: a value whose encoding is that of its components, joined

## Main results

* `exists_encodings_iff`: which values have separate encodings
* `joins_of_encodeBytes_iff`: all that is said about a composite value follows
  from what it is written as
* `compositional`: records, tuples and sequences are joined from their
  components
-/

namespace FeltWire.Shape

variable {s : Shape} {v : Value} {shapes : List Shape} {vs : List Value} {front : List UInt8}

/-- Values have separate `Encodings` if there are as many as shapes and each has
one under the shape at its place. -/
theorem exists_encodings_iff :
    (∃ encodings, Encodings shapes vs encodings) ↔ shapes.length = vs.length ∧
      ∀ (i : Nat) (s : Shape) (v : Value), shapes[i]? = some s → vs[i]? = some v →
        ∃ bytes, s.encodeBytes v = .ok bytes := by
  constructor
  · rintro ⟨encodings, each⟩
    refine ⟨each.length_eq, ?_⟩
    induction each with
    | nil => exact fun i s v at_i => absurd at_i (by simp)
    | cons head tail ih =>
      rintro (_ | i) s v shape_at value_at
      · cases shape_at
        cases value_at
        exact ⟨_, head⟩
      · exact ih i s v shape_at value_at
  · rintro ⟨size, each⟩
    induction shapes generalizing vs with
    | nil =>
      obtain rfl : vs = [] := List.length_eq_zero_iff.1 size.symm
      exact ⟨[], .nil⟩
    | cons s shapes ih =>
      cases vs with
      | nil => cases size
      | cons v vs =>
        obtain ⟨bytes, head⟩ := each 0 s v rfl rfl
        obtain ⟨encodings, tail⟩ := ih (Nat.succ.inj size) fun i => each (i + 1)
        exact ⟨bytes :: encodings, .cons head tail⟩

/-- **A value is joined from components**: its encoding is the bytes `front` and
the encodings of the components `vs`, each made on its own, in their order. -/
structure Joins (s : Shape) (v : Value) (front : List UInt8) (shapes : List Shape)
    (vs : List Value) : Prop where
  /-- It can be encoded exactly if there are as many components as shapes and
  all of them can. -/
  succeeds_iff : (∃ bytes, s.encodeBytes v = .ok bytes) ↔ shapes.length = vs.length ∧
    ∀ (i : Nat) (s' : Shape) (v' : Value), shapes[i]? = some s' → vs[i]? = some v' →
      ∃ bytes, s'.encodeBytes v' = .ok bytes
  /-- It is encoded as the joined `encodings` and as nothing else. -/
  encodes_iff : ∀ bytes, s.encodeBytes v = .ok bytes ↔
    ∃ encodings, Encodings shapes vs encodings ∧ front ++ encodings.flatten = bytes
  /-- It is decoded from the joined `encodings`. -/
  decodes : ∀ encodings, Encodings shapes vs encodings →
    s.decode (front ++ encodings.flatten) = .ok v

/-- What a composite value is written as (`h`) says when it is written and how
it is decoded. -/
theorem joins_of_encodeBytes_iff (h : ∀ bytes, s.encodeBytes v = .ok bytes ↔
    ∃ encodings, Encodings shapes vs encodings ∧ front ++ encodings.flatten = bytes) :
    Joins s v front shapes vs where
  succeeds_iff := by
    rw [← exists_encodings_iff]
    constructor
    · rintro ⟨bytes, encoded⟩
      obtain ⟨encodings, each, -⟩ := (h bytes).1 encoded
      exact ⟨encodings, each⟩
    · rintro ⟨encodings, each⟩
      exact ⟨_, (h _).2 ⟨encodings, each, rfl⟩⟩
  encodes_iff := h
  decodes encodings each := decode_eq_ok_iff.2 ((h _).2 ⟨encodings, each, rfl⟩)

theorem joins_record (name : String) (fields : List (String × Shape)) (vs : List Value) :
    Joins (record name fields) (.record vs) [] (fields.map Prod.snd) vs := by
  refine joins_of_encodeBytes_iff fun bytes => ?_
  rw [encodeBytes_record_iff]
  simp

theorem joins_tuple (items : List Shape) (vs : List Value) :
    Joins (tuple items) (.tuple vs) [] items vs := by
  refine joins_of_encodeBytes_iff fun bytes => ?_
  rw [encodeBytes_tuple_iff]
  simp

/-- A sequence that is not too long has a word for its length, which is far
below the `prime` and so is the number itself. -/
theorem joins_sequence (positive : s.fixedWords ≠ some 0) (size : vs.length < 2 ^ 32) :
    Joins s.sequence (.sequence vs) (BigEndian.encode wordSize vs.length)
      (List.replicate vs.length s) vs := by
  have fits : encodeUnsigned lengthWidth vs.length = .ok (.reduce vs.length) :=
    encodeUnsigned_eq_ok_iff.2 ⟨Nat.le_pred_of_lt size, rfl⟩
  have counted : (Felt.reduce vs.length).toBytes = BigEndian.encode wordSize vs.length := by
    rw [Felt.toBytes, Felt.val_reduce_of_lt (Nat.lt_trans size (by decide))]
  refine joins_of_encodeBytes_iff fun bytes => ?_
  rw [encodeBytes_sequence_iff, ← counted]
  constructor
  · rintro ⟨_, count, encodings, ⟨⟩, -, found, each, joined⟩
    obtain rfl := Except.ok.inj (fits.symm.trans found)
    exact ⟨encodings, each, joined⟩
  · rintro ⟨encodings, each, joined⟩
    exact ⟨vs, _, encodings, rfl, positive, fits, each, joined⟩

/-- As many copies of a shape as there are values are the shape of each of
them. -/
theorem forall_replicate_iff {p : Shape → Value → Prop} :
    (∀ (i : Nat) (s' : Shape) (v : Value), (List.replicate vs.length s)[i]? = some s' →
      vs[i]? = some v → p s' v) ↔ ∀ v ∈ vs, p s v := by
  constructor
  · intro each v member
    obtain ⟨i, inside, rfl⟩ := List.mem_iff_getElem.1 member
    exact each i s _ (List.getElem?_replicate_of_lt inside) (List.getElem?_eq_getElem inside)
  · intro each i s' v shape_at value_at
    obtain rfl := List.eq_of_mem_replicate (List.mem_of_getElem? shape_at)
    exact each v (List.mem_of_getElem? value_at)

/-- **Encodings are compositional.** What a value adds to a `Writer` and what is
read as the value do not depend on what stands before and after. Records and
tuples are encoded exactly if they have as many components as their shape and
each is encoded on its own, and then as these encodings one after another
(`Joins`). Sequences of elements that take words, fewer than `2 ^ 32` of them,
are encoded exactly if each element is, and then as the number of elements and
their encodings. Encodings that were made of the components separately decode to
the value of those components. -/
theorem compositional :
    (∀ (s : Shape) v (w : Writer),
      ((s.write v).written w).map wordBytes = (s.encodeBytes v).map (wordBytes w.words ++ ·)) ∧
    (∀ (s : Shape) v bytes, s.encodeBytes v = .ok bytes → ∀ position rest,
      s.read.outcome ⟨position, bytes ++ rest⟩ = (.ok v, ⟨position + bytes.length, rest⟩)) ∧
    (∀ name fields vs, Joins (record name fields) (.record vs) [] (fields.map Prod.snd) vs) ∧
    (∀ items vs, Joins (tuple items) (.tuple vs) [] items vs) ∧
    ∀ (s : Shape) vs, s.fixedWords ≠ some 0 → vs.length < 2 ^ 32 →
      ((∃ bytes, s.sequence.encodeBytes (.sequence vs) = .ok bytes) ↔
        ∀ v ∈ vs, ∃ bytes, s.encodeBytes v = .ok bytes) ∧
      Joins s.sequence (.sequence vs) (BigEndian.encode 32 vs.length)
        (List.replicate vs.length s) vs := by
  refine ⟨written_write, fun s v bytes encoded => s.exact_read.accepts encoded, joins_record,
    joins_tuple, fun s vs positive size => ?_⟩
  have joined := joins_sequence positive size
  refine ⟨?_, joined⟩
  rw [joined.succeeds_iff, forall_replicate_iff, List.length_replicate]
  exact and_iff_right rfl

/-- Two byte strings, as `notes`, and the sequence of the two. -/
theorem compositional_notes :
    let notes : List Value := [.bytes [], .bytes [0, 7]]
    ∃ encodings, Encodings [.bytes, .bytes] notes encodings ∧
      (sequence .bytes).encodeBytes (.sequence notes) =
        .ok (BigEndian.encode 32 2 ++ encodings.flatten) ∧
      (sequence .bytes).decode (BigEndian.encode 32 2 ++ encodings.flatten) =
        .ok (.sequence notes) := by
  intro notes
  obtain ⟨-, joined⟩ := compositional.2.2.2.2 .bytes notes nofun (by decide)
  obtain ⟨encodings, each⟩ : ∃ encodings, Encodings [.bytes, .bytes] notes encodings :=
    ⟨_, .cons rfl (.cons rfl .nil)⟩
  exact ⟨encodings, each, (joined.encodes_iff _).2 ⟨encodings, each, rfl⟩,
    joined.decodes encodings each⟩

end FeltWire.Shape

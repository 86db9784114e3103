import FeltWire.Proofs.Codec.Sizes

/-!
# Values are read exactly

Reading a value of a shape is exact for the encodings of values under that
shape. The three laws of `Reader.Exact` are proved together, by induction on the
shape, since each of them needs the others for the components in front: a
component is read where the one before it stopped.

## Main results

* `exact_readComponents`, `exact_readElements`: components one after another are
  read exactly if each is
* `exact_read`: values are read exactly
* `decode_eq`: what decoding gives, in terms of one reading step
* `decode_eq_ok_iff`: bytes decode to a value exactly if the value encodes to
  the bytes
-/

namespace FeltWire.Shape

/-- A located error that says that data is missing (`Fault.IsShortage`). -/
abbrev Starved (e : WireError) : Prop := e.fault.IsShortage

/-- Values of the shape `s` are read exactly, from the bytes that `encodeBytes`
gives. -/
abbrev ReadsExactly (s : Shape) : Prop :=
  Reader.Exact Starved s.read fun v bytes => s.encodeBytes v = .ok bytes

/-- **Components are read exactly** if `each` is. -/
theorem exact_readComponents {components : List (Step × Shape)}
    (each : ∀ s ∈ components.map Prod.snd, s.ReadsExactly) :
    Reader.Exact Starved (readComponents components) fun vs bytes =>
      ∃ encodings, Encodings (components.map Prod.snd) vs encodings ∧
        encodings.flatten = bytes := by
  induction components with
  | nil =>
    refine (Reader.Exact.pure []).congr fun vs bytes => ?_
    constructor
    · rintro ⟨_, ⟨⟩, rfl⟩
      exact ⟨rfl, rfl⟩
    · rintro ⟨rfl, rfl⟩
      exact ⟨[], .nil, rfl⟩
  | cons component components ih =>
    obtain ⟨step, s⟩ := component
    have head := (each s List.mem_cons_self).atStep step
    have tail := ih fun t ht => each t (List.mem_cons_of_mem _ ht)
    refine (head.bind fun v => tail.map (v :: ·)).congr fun vs bytes => ?_
    constructor
    · rintro ⟨_, ⟨⟩ | ⟨hv, hvs⟩, rfl⟩
      exact ⟨_, _, _, hv, ⟨_, rfl, _, hvs, rfl⟩, rfl⟩
    · rintro ⟨v, front, _, hv, ⟨vs, rfl, encodings, hvs, rfl⟩, rfl⟩
      exact ⟨front :: encodings, .cons hv hvs, rfl⟩

/-- The elements of a sequence are read exactly if each is, whatever their
`count`. -/
theorem exact_readElements {s : Shape} (element : s.ReadsExactly) (count : Nat) :
    Reader.Exact Starved (readComponents (elementComponents s 0 count)) fun vs bytes =>
      ∃ encodings, Encodings (List.replicate count s) vs encodings ∧
        encodings.flatten = bytes := by
  have each := @exact_readComponents (elementComponents s 0 count) (by
    rw [map_snd_elementComponents]
    exact fun t ht => List.eq_of_mem_replicate ht ▸ element)
  rwa [map_snd_elementComponents] at each

/-- A sequence is read exactly if its elements are: its length promises no more
words than the elements have, by `Encodings.le_length_flatten`. -/
theorem exact_read_sequence {s : Shape} (element : s.ReadsExactly) :
    s.sequence.ReadsExactly := by
  have tested (count : Nat) (positive : s.fixedWords ≠ some 0) :=
    ((exact_readElements element count).map Value.sequence).after_check
      (Reader.check_require count).atRoot (by
        rintro _ bytes ⟨vs, rfl, encodings, each, rfl⟩
        exact each.le_length_flatten positive)
  unfold ReadsExactly
  rw [read_sequence]
  refine ((Reader.Exact.lift s.checkElement).atRoot.bind_of_written fun _ _ checked =>
    (Reader.exact_scalar (decodeUnsigned lengthWidth)).atRoot.bind fun count =>
      tested count (checkElement_eq_ok_iff.1 checked.1)).congr fun v bytes => ?_
  rw [encodeBytes_sequence_iff]
  constructor
  · rintro ⟨vs, count, encodings, rfl, positive, fits, each, rfl⟩
    have counted := decodeUnsigned_eq_ok_iff.2 fits
    exact ⟨(), [], _, ⟨checkElement_eq_ok_iff.2 positive, rfl⟩,
      ⟨_, _, _, ⟨count, counted, rfl⟩, ⟨vs, rfl, encodings, each, rfl⟩, rfl⟩, List.nil_append _⟩
  · rintro ⟨_, _, _, ⟨positive, rfl⟩,
      ⟨length, _, _, ⟨count, counted, rfl⟩, ⟨vs, rfl, encodings, each, rfl⟩, rfl⟩, rfl⟩
    obtain rfl : length = vs.length := by simpa using each.length_eq
    exact ⟨vs, count, encodings, rfl, checkElement_eq_ok_iff.1 positive,
      decodeUnsigned_eq_ok_iff.1 counted, each, (List.nil_append _).symm⟩

/-- **Values are read exactly**, by induction over the shape
(`Shape.inductScalar`). -/
theorem exact_read (s : Shape) : s.ReadsExactly := by
  induction s using inductScalar with
  | scalar s scalar => exact exact_read_scalar scalar
  | bytes =>
    refine (ByteString.exact_read.atRoot.map Value.bytes).congr fun v bytes => ?_
    exact encodeBytes_bytes_iff
  | record name fields ih =>
    have each := @exact_readComponents (fieldComponents 0 fields) (by
      rw [map_snd_fieldComponents]
      exact List.forall_mem_map.2 ih)
    rw [map_snd_fieldComponents] at each
    unfold ReadsExactly
    rw [read_record]
    refine (each.map Value.record).congr fun v bytes => ?_
    rw [encodeBytes_record_iff]
    simp
  | sequence s ih => exact exact_read_sequence ih
  | tuple items ih =>
    have each := @exact_readComponents (itemComponents 0 items) (by rwa [map_snd_itemComponents])
    rw [map_snd_itemComponents] at each
    unfold ReadsExactly
    rw [read_tuple]
    refine (each.map Value.tuple).congr fun v bytes => ?_
    rw [encodeBytes_tuple_iff]
    simp

/-! ## Decoding -/

/-- Decoding reads one value with `read`, after which nothing may be left. -/
theorem decode_eq (s : Shape) (bytes : List UInt8) :
    s.decode bytes =
      match s.read.outcome (.start bytes) with
      | (.ok v, after) =>
        if after.remaining = 0 then .ok v else .error (.here (.trailing after.remaining))
      | (.error e, _) => .error e := by
  unfold decode
  simp only [Reader.outcome_bind]
  rcases s.read.outcome (.start bytes) with ⟨_ | v, after⟩
  · rfl
  · by_cases empty : after.remaining = 0
    · have finished : (Reader.atRoot .finish).outcome after = (.ok (), after) := by
        rw [Reader.atRoot, Reader.outcome_mapError, Reader.outcome_finish, if_pos empty]
        rfl
      simp only [finished, if_pos empty]
      rfl
    · have finished : (Reader.atRoot .finish).outcome after =
          (.error (.here (.trailing after.remaining)), after) := by
        rw [Reader.atRoot, Reader.outcome_mapError, Reader.outcome_finish, if_neg empty]
        rfl
      simp only [finished, if_neg empty]

/-- **Bytes decode to a value exactly if the value encodes to the bytes.** Both
directions come from `exact_read`: what was read are the bytes of the value, and
nothing is left. -/
theorem decode_eq_ok_iff {s : Shape} {v : Value} {bytes : List UInt8} :
    s.decode bytes = .ok v ↔ s.encodeBytes v = .ok bytes := by
  rw [decode_eq]
  constructor
  · intro h
    split at h
    · next w after read =>
      split at h
      · next empty =>
        cases h
        obtain ⟨used, encoded, whole⟩ := s.exact_read.canonical read
        have all : bytes = used ++ after.rest := whole
        rw [all, List.length_eq_zero_iff.1 empty, List.append_nil]
        exact encoded
      · cases h
    · cases h
  · intro h
    have read := s.exact_read.accepts h 0 []
    rw [List.append_nil] at read
    simp [Cursor.start, Cursor.remaining, read]

end FeltWire.Shape

import FeltWire.Proofs.Codec.Components
import FeltWire.Proofs.Json.Components
import FeltWire.Proofs.Json.Scalars

/-!
# Values survive their documents

A value that is written under a shape is also shown as a document, unless one of
its leaves has no form there: a byte string that is not a text, or a fixed-point
number whose double is not finite. The document gives the value back if no
record has two fields of one name, which would share a member of the object, and
if the fixed-point numbers come back from their doubles.

## Main definitions

* `Value.HasForm`: a leaf has a form in documents
* `Value.Faithful`: no fixed-point number loses bits in its double

## Main results

* `exists_toJson_iff`: which values are shown
* `ofJson_of_toJson`: a value is read from what it is shown as
* `json_round_trip`: both together
* `exists_normal_form`: what a document gives is shown as a document that gives
  the same
-/

namespace FeltWire

/-! ## Leaves -/

namespace Value

variable {v c : Value}

/-- A byte string is a text, and the double of a fixed-point number is finite;
other values always have a form. -/
def HasForm : Value → Prop
  | .bytes data => ∃ text, data = Utf8.encode text
  | .fixed x => x.toBinary64.isFinite = true
  | _ => True

/-- The leaves of a value with components are those of the components, so that
`HasForm` is asked of these only. -/
theorem hasForms_iff (h : v.HasForm) : (∀ u : Value, u.Occurs v → u.HasForm) ↔
    ∀ c ∈ v.components, ∀ u : Value, u.Occurs c → u.HasForm :=
  forall_occurs_iff.trans (and_iff_right h)

/-- The fixed-point numbers in a value come back from the doubles that they are
shown as (`Fixed.ofBinary64`). -/
def Faithful (v : Value) : Prop :=
  ∀ x : Fixed, (Value.fixed x).Occurs v → Fixed.ofBinary64 x.toBinary64 x.scale = .ok x

theorem Faithful.component (h : v.Faithful) (mem : c ∈ v.components) : c.Faithful :=
  fun x inner => h x (.component mem inner)

end Value

namespace Shape

variable {s : Shape} {shapes : List Shape} {v : Value} {vs : List Value} {bytes : List UInt8}
  {j : Json} {js : List Json}

/-! ## Which values are shown -/

/-- Components are shown if each of them is; `p` says when one is. -/
theorem Encodings.exists_shownAs_iff {p : Value → Prop} {encodings : List (List UInt8)}
    (h : Encodings shapes vs encodings)
    (each : ∀ s ∈ shapes, ∀ v bytes, s.encodeBytes v = .ok bytes →
      ((∃ j, s.toJson v = .ok j) ↔ p v)) :
    (∃ js, Each ShownAs shapes vs js) ↔ ∀ v ∈ vs, p v := by
  induction h with
  | nil => exact iff_of_true ⟨[], .nil⟩ (by simp)
  | cons head tail ih =>
    rw [List.forall_mem_cons, ← each _ List.mem_cons_self _ _ head,
      ← ih fun s hs => each s (List.mem_cons_of_mem _ hs)]
    constructor
    · rintro ⟨_, _ | ⟨first, others⟩⟩
      exact ⟨⟨_, first⟩, _, others⟩
    · rintro ⟨⟨j, first⟩, js, others⟩
      exact ⟨j :: js, .cons first others⟩

/-- **A value is shown exactly if all its leaves have forms** (`HasForm`). Of
the scalars only a fixed-point number can lack one. -/
theorem exists_toJson_iff (encoded : s.encodeBytes v = .ok bytes) :
    (∃ j, s.toJson v = .ok j) ↔ ∀ u : Value, u.Occurs v → u.HasForm := by
  induction s using inductScalar generalizing v bytes with
  | scalar s scalar =>
    obtain ⟨x, written, -⟩ := (encodeBytes_scalar_iff scalar).1 encoded
    rw [exists_toJson_scalar_iff scalar written, Value.forall_occurs_iff,
      components_of_word written]
    cases v with
    | bytes => cases s <;> cases written
    | _ => simp [Value.HasForm]
  | bytes =>
    obtain ⟨data, rfl, -⟩ := encodeBytes_bytes_iff.1 encoded
    simp only [toJson_bytes_iff]
    constructor
    · rintro ⟨_, text, rfl, -⟩
      exact Value.forall_occurs_iff.2 ⟨⟨text, rfl⟩, nofun⟩
    · intro forms
      obtain ⟨text, rfl⟩ := forms _ .here
      exact ⟨_, text, rfl, rfl⟩
  | record name fields ih =>
    obtain ⟨vs, encodings, rfl, each, -⟩ := encodeBytes_record_iff.1 encoded
    have shown := each.exists_shownAs_iff fun s hs v bytes field => by
      obtain ⟨f, hf, rfl⟩ := List.mem_map.1 hs
      exact ih f hf field
    rw [Value.hasForms_iff (v := .record vs) trivial, Value.components, ← shown]
    simp only [toJson_record_iff]
    constructor
    · rintro ⟨_, _, js, ⟨⟩, -, each⟩
      exact ⟨js, each⟩
    · rintro ⟨js, each⟩
      exact ⟨_, vs, js, rfl, rfl, each⟩
  | sequence s ih =>
    obtain ⟨vs, _, encodings, rfl, -, -, each, -⟩ := encodeBytes_sequence_iff.1 encoded
    have shown := each.exists_shownAs_iff fun t ht v bytes element => by
      obtain rfl := List.eq_of_mem_replicate ht
      exact ih element
    rw [Value.hasForms_iff (v := .sequence vs) trivial, Value.components, ← shown]
    simp only [toJson_sequence_iff]
    constructor
    · rintro ⟨_, _, js, ⟨⟩, -, each⟩
      exact ⟨js, each⟩
    · rintro ⟨js, each⟩
      exact ⟨_, vs, js, rfl, rfl, each⟩
  | tuple items ih =>
    obtain ⟨vs, encodings, rfl, each, -⟩ := encodeBytes_tuple_iff.1 encoded
    have shown := each.exists_shownAs_iff fun s hs v bytes item => ih s hs item
    rw [Value.hasForms_iff (v := .tuple vs) trivial, Value.components, ← shown]
    simp only [toJson_tuple_iff]
    constructor
    · rintro ⟨_, _, js, ⟨⟩, -, each⟩
      exact ⟨js, each⟩
    · rintro ⟨js, each⟩
      exact ⟨_, vs, js, rfl, rfl, each⟩

/-! ## What is shown is read back -/

/-- Components are read from what they are shown as if `each` of them is. -/
theorem Encodings.readFrom_of_shownAs {encodings : List (List UInt8)}
    (h : Encodings shapes vs encodings) (shown : Each ShownAs shapes vs js)
    (each : ∀ s ∈ shapes, ∀ v ∈ vs, ∀ bytes j, s.encodeBytes v = .ok bytes → s.toJson v = .ok j →
      s.ofJson j = .ok v) : Each ReadFrom shapes js vs := by
  induction h generalizing js with
  | nil =>
    cases shown
    exact .nil
  | cons head tail ih =>
    rcases shown with _ | ⟨first, others⟩
    exact .cons (each _ List.mem_cons_self _ List.mem_cons_self _ _ head first)
      (ih others fun s hs v hv => each s (List.mem_cons_of_mem _ hs) v (List.mem_cons_of_mem _ hv))

/-- **A value is read from what it is shown as**, if it is `Faithful`. The names
of a record are different, so that each field finds its own member. -/
theorem ofJson_of_toJson (distinct : s.DistinctNames) (encoded : s.encodeBytes v = .ok bytes)
    (shown : s.toJson v = .ok j) (faithful : v.Faithful) : s.ofJson j = .ok v := by
  induction s using inductScalar generalizing v bytes j with
  | scalar s scalar =>
    obtain ⟨x, written, -⟩ := (encodeBytes_scalar_iff scalar).1 encoded
    exact ofJson_toJson_scalar scalar written shown fun f same => faithful f (same ▸ .here)
  | bytes =>
    obtain ⟨data, rfl, -⟩ := encodeBytes_bytes_iff.1 encoded
    obtain ⟨text, rfl, rfl⟩ := toJson_bytes_iff.1 shown
    exact ofJson_bytes_iff.2 ⟨text, rfl, rfl⟩
  | record name fields ih =>
    obtain ⟨vs, encodings, rfl, each, -⟩ := encodeBytes_record_iff.1 encoded
    obtain ⟨_, js, ⟨⟩, rfl, members⟩ := toJson_record_iff.1 shown
    have read := each.readFrom_of_shownAs members fun s hs v hv bytes j field doc => by
      obtain ⟨f, hf, rfl⟩ := List.mem_map.1 hs
      exact ih f hf (distinct.component hs) field doc (faithful.component hv)
    have size : (fields.map Prod.fst).length = js.length := by simpa using members.length_right
    have found := Dictionary.map_get?_ofList (distinct name fields .here) size
    rw [List.map_map] at found
    exact ofJson_record_iff.2 ⟨_, js, vs, rfl, rfl, found, read⟩
  | sequence s ih =>
    obtain ⟨vs, _, encodings, rfl, -, -, each, -⟩ := encodeBytes_sequence_iff.1 encoded
    obtain ⟨_, js, ⟨⟩, rfl, elements⟩ := toJson_sequence_iff.1 shown
    have size : vs.length = js.length := by simpa using elements.length_right
    have read := each.readFrom_of_shownAs elements fun t ht v hv bytes j element doc => by
      obtain rfl := List.eq_of_mem_replicate ht
      exact ih (distinct.component List.mem_cons_self) element doc (faithful.component hv)
    exact ofJson_sequence_iff.2 ⟨js, vs, rfl, rfl, size ▸ read⟩
  | tuple items ih =>
    obtain ⟨vs, encodings, rfl, each, -⟩ := encodeBytes_tuple_iff.1 encoded
    obtain ⟨_, js, ⟨⟩, rfl, items⟩ := toJson_tuple_iff.1 shown
    have read := each.readFrom_of_shownAs items fun s hs v hv bytes j item doc =>
      ih s hs (distinct.component hs) item doc (faithful.component hv)
    exact ofJson_tuple_iff.2 ⟨js, vs, rfl, rfl, read⟩

/-- **Values survive their documents.** A value that is written is shown exactly
if each of its byte strings is a text and each of its fixed-point numbers has a
finite double; and the document gives the value back if the fixed-point numbers
come back from their doubles (`Fixed.toBinary64`, `Fixed.ofBinary64`). -/
theorem json_round_trip (s : Shape)
    (distinct : ∀ name fields, (record name fields).Occurs s → (fields.map Prod.fst).Nodup)
    (v : Value) {bytes : List UInt8} (encoded : s.encodeBytes v = .ok bytes) :
    ((∃ j, s.toJson v = .ok j) ↔
      (∀ data, (Value.bytes data).Occurs v → ∃ text, data = Utf8.encode text) ∧
      ∀ x, (Value.fixed x).Occurs v → x.toBinary64.isFinite = true) ∧
    ∀ j, s.toJson v = .ok j →
      (∀ x, (Value.fixed x).Occurs v → Fixed.ofBinary64 x.toBinary64 x.scale = .ok x) →
      s.ofJson j = .ok v := by
  refine ⟨?_, fun j shown faithful => ofJson_of_toJson distinct encoded shown faithful⟩
  rw [exists_toJson_iff encoded]
  constructor
  · exact fun forms => ⟨fun data => forms (.bytes data), fun x => forms (.fixed x)⟩
  · rintro ⟨texts, finite⟩ u occurs
    cases u with
    | bytes data => exact texts data occurs
    | fixed x => exact finite x occurs
    | _ => trivial

theorem json_round_trip_quote :
    let s : Shape := .record "Quote" [("price", .fixed 32), ("note", .bytes)]
    let v : Value := .record [.fixed ⟨6442450944, 32⟩, .bytes [0x68, 0x69]]
    s.DistinctNames ∧ (∃ bytes, s.encodeBytes v = .ok bytes) ∧
      ∃ j, s.toJson v = .ok j ∧ s.ofJson j = .ok v := by
  intro s v
  have distinct : s.DistinctNames := by
    intro name fields occurs
    rcases occurs_iff.1 occurs with same | ⟨c, mem, inner⟩
    · obtain ⟨rfl, rfl⟩ := record.inj same
      decide
    · have scalar : c = .fixed 32 ∨ c = .bytes := by simpa [s, components] using mem
      rcases scalar with rfl | rfl <;> rcases inner with _ | ⟨mem, -⟩ <;> cases mem
  have notes (data : List UInt8) (occurs : (Value.bytes data).Occurs v) : data = [0x68, 0x69] := by
    simpa [v, Value.occurs_iff (v := .record _), Value.occurs_iff (v := .fixed _),
      Value.occurs_iff (v := .bytes _), Value.components] using occurs
  have prices (x : Fixed) (occurs : (Value.fixed x).Occurs v) : x = ⟨6442450944, 32⟩ := by
    simpa [v, Value.occurs_iff (v := .record _), Value.occurs_iff (v := .fixed _),
      Value.occurs_iff (v := .bytes _), Value.components] using occurs
  -- the raw value is `3 * 2 ^ 31`
  have price := Fixed.ofBinary64_toBinary64 (x := ⟨6442450944, 32⟩) (by decide)
    ⟨3, 31, by decide, by decide⟩
  have encoded : ∃ bytes, s.encodeBytes v = .ok bytes := ⟨_, rfl⟩
  obtain ⟨bytes, encoded⟩ := encoded
  obtain ⟨shown, back⟩ := json_round_trip s distinct v encoded
  obtain ⟨j, hj⟩ := shown.2 ⟨fun data occurs => ⟨"hi", notes data occurs⟩,
    fun x occurs => prices x occurs ▸ price.1⟩
  exact ⟨distinct, ⟨bytes, encoded⟩, j, hj, back j hj fun x occurs => prices x occurs ▸ price.2⟩

/-! ## What was read from a document -/

/-- A component of a value from a document is itself from a document, by the
`components` of a shape. -/
theorem exists_ofJson_of_component {c : Value} (read : s.ofJson j = .ok v)
    (mem : c ∈ v.components) : ∃ (s' : Shape) (j' : Json), s'.ofJson j' = .ok c := by
  have single {shapes : List Shape} {js : List Json} {vs : List Value}
      (each : Each ReadFrom shapes js vs) (mem : c ∈ vs) :
      ∃ (s' : Shape) (j' : Json), s'.ofJson j' = .ok c := by
    obtain ⟨s', -, j', -, read⟩ := each.exists_of_mem mem
    exact ⟨s', j', read⟩
  cases s using inductScalar with
  | scalar s scalar =>
    obtain ⟨x, written⟩ := exists_word_of_ofJson scalar read
    rw [components_of_word written] at mem
    cases mem
  | bytes =>
    obtain ⟨text, -, rfl⟩ := ofJson_bytes_iff.1 read
    cases mem
  | record name fields =>
    obtain ⟨members, js, vs, -, rfl, -, each⟩ := ofJson_record_iff.1 read
    exact single each mem
  | sequence s =>
    obtain ⟨js, vs, -, rfl, each⟩ := ofJson_sequence_iff.1 read
    exact single each mem
  | tuple items =>
    obtain ⟨js, vs, -, rfl, each⟩ := ofJson_tuple_iff.1 read
    exact single each mem

/-- **Whatever occurs in a value from a document** is itself from a document, by
induction on `Occurs`. -/
theorem exists_ofJson_of_occurs {u : Value} (occurs : u.Occurs v) (read : s.ofJson j = .ok v) :
    ∃ (s' : Shape) (j' : Json), s'.ofJson j' = .ok u := by
  induction occurs generalizing s j with
  | here => exact ⟨s, j, read⟩
  | component mem _ ih =>
    obtain ⟨s', j', read⟩ := exists_ofJson_of_component read mem
    exact ih read

/-- A byte string from a document is a text, as `Utf8.encode` makes it. -/
theorem exists_text_of_ofJson {data : List UInt8} (read : s.ofJson j = .ok (.bytes data)) :
    ∃ text, data = Utf8.encode text := by
  cases s using inductScalar with
  | scalar s scalar =>
    obtain ⟨x, written⟩ := exists_word_of_ofJson scalar read
    cases s <;> cases written
  | bytes =>
    obtain ⟨text, -, same⟩ := ofJson_bytes_iff.1 read
    exact ⟨text, (Value.bytes.inj same).symm⟩
  | record => obtain ⟨_, _, _, -, ⟨⟩, -⟩ := ofJson_record_iff.1 read
  | sequence => obtain ⟨_, _, -, ⟨⟩, -⟩ := ofJson_sequence_iff.1 read
  | tuple => obtain ⟨_, _, -, ⟨⟩, -⟩ := ofJson_tuple_iff.1 read

/-- A fixed-point number from a document was made from a double by
`Fixed.ofBinary64`. -/
theorem exists_double_of_ofJson {x : Fixed} (read : s.ofJson j = .ok (.fixed x)) :
    ∃ y scale, Fixed.ofBinary64 y scale = .ok x := by
  cases s using inductScalar with
  | scalar s scalar =>
    obtain ⟨_, written⟩ := exists_word_of_ofJson scalar read
    cases s with
    | fixed scale =>
      obtain ⟨n, x, -, made, ⟨⟩⟩ := ofJson_fixed_iff.1 read
      exact ⟨_, _, made⟩
    | _ => cases written
  | bytes => obtain ⟨_, -, ⟨⟩⟩ := ofJson_bytes_iff.1 read
  | record => obtain ⟨_, _, _, -, ⟨⟩, -⟩ := ofJson_record_iff.1 read
  | sequence => obtain ⟨_, _, -, ⟨⟩, -⟩ := ofJson_sequence_iff.1 read
  | tuple => obtain ⟨_, _, -, ⟨⟩, -⟩ := ofJson_tuple_iff.1 read

/-- **The normal form of a document.** What a document gives is shown as a
document `j'` that gives the same: its byte strings are texts, and its
fixed-point numbers come back from their doubles since they were made from
doubles. -/
theorem exists_normal_form (distinct : s.DistinctNames) (read : s.ofJson j = .ok v)
    (encoded : s.encodeBytes v = .ok bytes) : ∃ j', s.toJson v = .ok j' ∧ s.ofJson j' = .ok v := by
  have doubles (x : Fixed) (occurs : (Value.fixed x).Occurs v) :
      x.toBinary64.isFinite = true ∧ Fixed.ofBinary64 x.toBinary64 x.scale = .ok x := by
    obtain ⟨s', j', read⟩ := exists_ofJson_of_occurs occurs read
    obtain ⟨y, scale, made⟩ := exists_double_of_ofJson read
    exact Fixed.ofBinary64_toBinary64_of_ofBinary64 made
  have forms (u : Value) (occurs : u.Occurs v) : u.HasForm := by
    cases u with
    | bytes data =>
      obtain ⟨s', j', read⟩ := exists_ofJson_of_occurs occurs read
      exact exists_text_of_ofJson read
    | fixed x => exact (doubles x occurs).1
    | _ => trivial
  obtain ⟨j', shown⟩ := (exists_toJson_iff encoded).2 forms
  exact ⟨j', shown, ofJson_of_toJson distinct encoded shown fun x occurs => (doubles x occurs).2⟩

end Shape

end FeltWire

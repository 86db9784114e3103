import FeltWire.Proofs.Codec.Exact
import FeltWire.StaticType
import Mathlib.Data.List.Basic

/-!
# Types are decoded as their shapes are

A type is given by three functions: its shape, the value that stands for each of
the type's values, and the conversion of values back to the type. Each is
defined on its own, by recursion on the type. Here they are shown to fit
together, and to fit what the codec does: whatever decodes under the type's
shape can be converted, and is converted to what it stands for.

## Why it is not an inverse law

The conversion does not undo `toValue` everywhere. A fixed-point number of
another scale than the standard one is a value of its type, but it can be
neither written nor converted. So what is proved of a conversion is relative to
the codec: it takes whatever can be written. That the conversion is sound and
that distinct values stay distinct do not depend on the codec.

## Main definitions

* `StaticType.Converts`: what a conversion between a type's values and those of
  a shape provides
* `StaticType.Faithful`: what the functions of a type are to provide
* `StaticType.ConvertsAll`: the same for components that are taken one after
  another

## Main results

* `StaticType.Converts.of_iff`, `StaticType.ConvertsAll.cons`,
  `StaticType.ConvertsAll.composite`: conversions are built as types are
* `StaticType.faithful`: every type has such a conversion
* `StaticType.decode_refines_shape`: decoding a type is decoding its shape, with
  the same values and the same errors
-/

namespace FeltWire.StaticType

open Shape (Encodings)

/-- Induction over types, with the hypothesis for every component of a `tuple`
or a `record`, which the recursor of the nested type does not give. -/
@[elab_as_elim]
theorem induct {motive : StaticType → Prop} (unsigned : ∀ w, motive (.unsigned w))
    (signed : ∀ w, motive (.signed w)) (bool : motive .bool) (felt : motive .felt)
    (fixed : motive .fixed) (bytes : motive .bytes) (list : ∀ t, motive t → motive (.list t))
    (tuple : ∀ items, (∀ t ∈ items, motive t) → motive (.tuple items))
    (record : ∀ name fields, (∀ f ∈ fields, motive f.2) → motive (.record name fields))
    (t : StaticType) : motive t :=
  StaticType.rec (motive_1 := motive) (motive_2 := fun items => ∀ t ∈ items, motive t)
    (motive_3 := fun fields => ∀ f ∈ fields, motive f.2) (motive_4 := fun f => motive f.2)
    unsigned signed bool felt fixed bytes list tuple record
    (fun _ h => absurd h List.not_mem_nil)
    (fun _ _ head tail _ h => (List.mem_cons.1 h).elim (fun e => e ▸ head) (tail _))
    (fun _ h => absurd h List.not_mem_nil)
    (fun _ _ head tail _ h => (List.mem_cons.1 h).elim (fun e => e ▸ head) (tail _))
    (fun _ _ h => h) t

/-! ## Conversions -/

variable {α β : Type}

/-- **A conversion** between a type's values and the values that have a shape,
by `toValue` one way and `ofValue` the other. -/
structure Converts (s : Shape) (toValue : α → Value) (ofValue : Value → Except WireError α) :
    Prop where
  /-- What a value is converted to stands for that value. -/
  sound : ∀ {v x}, ofValue v = .ok x → toValue x = v
  /-- Whatever can be written under the shape is converted. -/
  total : ∀ {v bytes}, s.encodeBytes v = .ok bytes → ∃ x, ofValue v = .ok x
  /-- No two of the type's values stand for one value. -/
  injective : Function.Injective toValue

/-- **The values of a type are converted faithfully** to values of its shape and
back (`Converts`). -/
abbrev Faithful (t : StaticType) : Prop := Converts t.shape t.toValue t.ofValue

namespace Converts

variable {s : Shape} {toValue : α → Value} {ofValue : Value → Except WireError α}

/-- A conversion that finds whatever stands for a value (`found`) is sound and
injective; `covered` makes it total. -/
theorem of_iff (found : ∀ v x, ofValue v = .ok x ↔ toValue x = v)
    (covered : ∀ v bytes, s.encodeBytes v = .ok bytes → ∃ x, toValue x = v) :
    Converts s toValue ofValue where
  sound := by
    intro v x h
    exact (found v x).1 h
  total := by
    intro v bytes h
    obtain ⟨x, stands⟩ := covered v bytes h
    exact ⟨x, (found v x).2 stands⟩
  injective := by
    intro x y same
    have own := (found (toValue y) x).2 same
    rw [(found (toValue y) y).2 rfl] at own
    exact (Except.ok.inj own).symm

/-- A conversion from values that are one word, so that `covered` speaks of
words. -/
theorem of_word (scalar : s.IsScalar) (found : ∀ v x, ofValue v = .ok x ↔ toValue x = v)
    (covered : ∀ v word, s.word v = .ok word → ∃ x, toValue x = v) :
    Converts s toValue ofValue := by
  apply of_iff found
  intro v bytes h
  obtain ⟨word, written, -⟩ := (Shape.encodeBytes_scalar_iff scalar).1 h
  exact covered v word written

end Converts

/-! ## Scalars and byte strings -/

/-- A number that has to be in a range `p` is found under its `kind`. -/
theorem ranged_iff {p : β → Prop} [DecidablePred p] {kind : β → Value}
    (distinct : Function.Injective kind) {n : β} {e : WireError} {x : { n // p n }} :
    (if h : p n then .ok ⟨n, h⟩ else .error e : Except WireError { n // p n }) = .ok x ↔
      kind x.val = kind n := by
  constructor
  · intro h
    split at h
    · cases h
      rfl
    · cases h
  · intro same
    cases distinct same
    exact dif_pos x.2

/-- What is taken unchanged is found under its `kind`. -/
theorem ok_iff {kind : β → Value} (distinct : Function.Injective kind) {x y : β} :
    (.ok y : Except WireError β) = .ok x ↔ kind x = kind y := by
  rw [distinct.eq_iff, Except.ok.injEq, eq_comm]

theorem faithful_unsigned (w : Width) : (unsigned w).Faithful := by
  apply Converts.of_word (s := .unsigned w) trivial
  · intro v x
    cases v with
    | unsigned n => exact ranged_iff (p := (· ≤ w.maxUnsigned)) fun _ _ => Value.unsigned.inj
    | _ => exact ⟨nofun, nofun⟩
  · intro v word written
    cases v with
    | unsigned n =>
      have bounds := (encodeUnsigned_eq_ok_iff.1 written).1
      exact ⟨⟨n, bounds⟩, rfl⟩
    | _ => cases written

theorem faithful_signed (w : Width) : (signed w).Faithful := by
  apply Converts.of_word (s := .signed w) trivial
  · intro v x
    cases v with
    | signed n =>
      exact ranged_iff (p := fun n => w.minSigned ≤ n ∧ n ≤ w.maxSigned)
        fun _ _ => Value.signed.inj
    | _ => exact ⟨nofun, nofun⟩
  · intro v word written
    cases v with
    | signed n =>
      have bounds := (encodeSigned_eq_ok_iff.1 written).1
      exact ⟨⟨n, bounds⟩, rfl⟩
    | _ => cases written

theorem faithful_bool : bool.Faithful := by
  apply Converts.of_word (s := .bool) trivial
  · intro v x
    cases v with
    | bool b => exact ok_iff fun _ _ => Value.bool.inj
    | _ => exact ⟨nofun, nofun⟩
  · intro v word written
    cases v with
    | bool b => exact ⟨b, rfl⟩
    | _ => cases written

theorem faithful_felt : felt.Faithful := by
  apply Converts.of_word (s := .felt) trivial
  · intro v x
    cases v with
    | felt y => exact ok_iff fun _ _ => Value.felt.inj
    | _ => exact ⟨nofun, nofun⟩
  · intro v word written
    cases v with
    | felt y => exact ⟨y, rfl⟩
    | _ => cases written

theorem faithful_bytes : bytes.Faithful := by
  apply Converts.of_iff
  · intro v x
    cases v with
    | bytes data => exact ok_iff fun _ _ => Value.bytes.inj
    | _ => exact ⟨nofun, nofun⟩
  · intro v bytes h
    obtain ⟨data, rfl, -⟩ := Shape.encodeBytes_bytes_iff.1 h
    exact ⟨data, rfl⟩

/-- **Fixed-point numbers** of another scale than `Fixed.standardScale` have
values, but are neither written nor found. -/
theorem faithful_fixed : fixed.Faithful where
  sound := by
    intro v x h
    cases v with
    | fixed y =>
      have meaning : ofValue .fixed (.fixed y) = if y.scale = Fixed.standardScale then .ok y
          else .error (.here (.scaleMismatch Fixed.standardScale y.scale)) := rfl
      rw [meaning] at h
      split at h
      · cases h
        rfl
      · cases h
    | _ => cases h
  total := by
    intro v bytes h
    have scalar : (Shape.fixed Fixed.standardScale).IsScalar := trivial
    obtain ⟨word, written, -⟩ := (Shape.encodeBytes_scalar_iff scalar).1 h
    cases v with
    | fixed y =>
      have standard := (Fixed.encodeAt_eq_ok_iff.1 written).1
      exact ⟨y, if_pos standard⟩
    | _ => cases written
  injective := fun _ _ => Value.fixed.inj

/-! ## Lists -/

section List

variable {s : Shape} {toValue : α → Value} {ofValue : Value → Except WireError α}

/-- The elements found by `listOfValues` stand for the values they were found
for. -/
theorem Converts.map_listOfValues (each : Converts s toValue ofValue) {index : Nat}
    {vs : List Value} {xs : List α} (h : listOfValues ofValue index vs = .ok xs) :
    xs.map toValue = vs := by
  induction vs generalizing index xs with
  | nil =>
    cases h
    rfl
  | cons v vs ih =>
    obtain ⟨x, head, h⟩ := bind_eq_ok_iff.1 h
    obtain ⟨rest, tail, h⟩ := bind_eq_ok_iff.1 h
    cases h
    rw [List.map_cons, each.sound (atStep_eq_ok.1 head), ih tail]

/-- Elements that can be written are found by `listOfValues`, whatever the
`index` of the first. -/
theorem Converts.exists_listOfValues (each : Converts s toValue ofValue) {index : Nat}
    {vs : List Value} {encodings : List (List UInt8)}
    (h : Encodings (List.replicate vs.length s) vs encodings) :
    ∃ xs, listOfValues ofValue index vs = .ok xs := by
  induction vs generalizing index encodings with
  | nil => exact ⟨[], rfl⟩
  | cons v vs ih =>
    rcases h with _ | ⟨head, tail⟩
    -- the index only locates errors, and there are none
    obtain ⟨x, found⟩ := each.total head
    obtain ⟨xs, rest⟩ := @ih (index + 1) _ tail
    refine ⟨x :: xs, ?_⟩
    rw [listOfValues, found, rest]
    rfl

end List

theorem faithful_list {t : StaticType} (each : t.Faithful) : (list t).Faithful where
  sound := by
    intro v xs h
    cases v with
    | sequence vs => exact congrArg Value.sequence (each.map_listOfValues h)
    | _ => cases h
  total := by
    intro v bytes h
    obtain ⟨vs, -, encodings, rfl, -, -, separate, -⟩ := Shape.encodeBytes_sequence_iff.1 h
    exact each.exists_listOfValues separate
  injective := by
    intro xs ys same
    exact List.map_injective_iff.2 each.injective (Value.sequence.inj same)

/-! ## Components -/

/-- **Conversions of components**, taken one after another, as `Converts` is for
one. -/
structure ConvertsAll (shapes : List Shape) (toValues : α → List Value)
    (ofValues : List Value → Except WireError α) : Prop where
  /-- What as many values as there are shapes are converted to stands for
  them. -/
  sound : ∀ {vs x}, vs.length = shapes.length → ofValues vs = .ok x → toValues x = vs
  /-- Components that can be written are converted. -/
  total : ∀ {vs encodings}, Encodings shapes vs encodings → ∃ x, ofValues vs = .ok x
  /-- No two of the type's values have the same components. -/
  injective : Function.Injective toValues

namespace ConvertsAll

variable {shapes : List Shape} {ofValues : List Value → Except WireError β}

theorem nil {toValues : Unit → List Value} {ofValues : List Value → Except WireError Unit}
    (nothing : ∀ x, toValues x = []) (given : ofValues [] = .ok ()) :
    ConvertsAll [] toValues ofValues where
  sound := by
    intro vs x size _
    rw [nothing, List.length_eq_zero_iff.1 size]
  total := by
    rintro _ _ ⟨⟩
    exact ⟨(), given⟩
  injective := fun _ _ _ => rfl

/-- A component in front is converted at its own `step`, and then the others are
(`taken`). -/
theorem cons {s : Shape} {toValue : α → Value} {ofValue : Value → Except WireError α}
    {toValues : β → List Value} {ofAll : List Value → Except WireError (α × β)} (step : Step)
    (head : Converts s toValue ofValue) (tail : ConvertsAll shapes toValues ofValues)
    (taken : ∀ v vs, ofAll (v :: vs) = do
      let x ← atStep step (ofValue v)
      let xs ← ofValues vs
      return (x, xs)) :
    ConvertsAll (s :: shapes) (fun p => toValue p.1 :: toValues p.2) ofAll where
  sound := by
    intro vs p size h
    cases vs with
    | nil => cases size
    | cons v vs =>
      rw [taken] at h
      obtain ⟨x, front, h⟩ := bind_eq_ok_iff.1 h
      obtain ⟨xs, rest, h⟩ := bind_eq_ok_iff.1 h
      cases h
      rw [head.sound (atStep_eq_ok.1 front), tail.sound (Nat.succ.inj size) rest]
  total := by
    rintro _ _ (_ | ⟨written, each⟩)
    obtain ⟨x, front⟩ := head.total written
    obtain ⟨xs, rest⟩ := tail.total each
    refine ⟨(x, xs), ?_⟩
    rw [taken, front, rest]
    rfl
  injective := by
    intro p q same
    have fronts := head.injective (List.cons.inj same).1
    have rests := tail.injective (List.cons.inj same).2
    exact Prod.ext fronts rests

/-- A composite value is converted as its components are (`each`), if there are
as many as there should be. What was `written` has so many. -/
theorem composite {s : Shape} {kind : List Value → Value} {toValues : β → List Value}
    {ofValue : Value → Except WireError β} (each : ConvertsAll shapes toValues ofValues)
    (distinct : Function.Injective kind)
    (taken : ∀ v x, ofValue v = .ok x ↔
      ∃ vs, v = kind vs ∧ vs.length = shapes.length ∧ ofValues vs = .ok x)
    (written : ∀ v bytes, s.encodeBytes v = .ok bytes →
      ∃ vs encodings, v = kind vs ∧ Encodings shapes vs encodings) :
    Converts s (fun x => kind (toValues x)) ofValue where
  sound := by
    intro v x h
    obtain ⟨vs, rfl, size, found⟩ := (taken v x).1 h
    exact congrArg kind (each.sound size found)
  total := by
    intro v bytes h
    obtain ⟨vs, encodings, rfl, separate⟩ := written v bytes h
    obtain ⟨x, found⟩ := each.total separate
    exact ⟨x, (taken _ x).2 ⟨vs, rfl, separate.length_eq.symm, found⟩⟩
  injective := distinct.comp each.injective

end ConvertsAll

theorem length_itemShapes (items : List StaticType) :
    (itemShapes items).length = items.length := by
  induction items with
  | nil => rfl
  | cons t items ih => rw [itemShapes, List.length_cons, ih, List.length_cons]

theorem length_fieldShapes (fields : List (String × StaticType)) :
    (fieldShapes fields).length = fields.length := by
  induction fields with
  | nil => rfl
  | cons f fields ih => rw [fieldShapes, List.length_cons, ih, List.length_cons]

/-- A record is taken apart by `takeFields` if it has as many fields as it
should. -/
theorem takeFields_eq_ok_iff {v : Value} {s : Shape} {expected : Nat} {cursor : FieldCursor} :
    takeFields v s expected = .ok cursor ↔
      ∃ vs, v = .record vs ∧ vs.length = expected ∧ cursor = ⟨0, vs⟩ := by
  cases v with
  | record vs =>
    rw [takeFields]
    constructor
    · intro h
      split at h
      · next size =>
        cases h
        exact ⟨vs, rfl, size, rfl⟩
      · cases h
    · rintro ⟨_, ⟨⟩, size, rfl⟩
      exact if_pos size
  | _ => exact ⟨nofun, nofun⟩

theorem convertsAll_items {items : List StaticType} (each : ∀ t ∈ items, t.Faithful)
    (position : Nat) :
    ConvertsAll (itemShapes items) (itemValues items) (itemsOfValues position items) := by
  induction items generalizing position with
  | nil => exact .nil (fun _ => rfl) rfl
  | cons t items ih =>
    have head := each t List.mem_cons_self
    have tail := ih (fun u hu => each u (List.mem_cons_of_mem t hu)) (position + 1)
    exact .cons (.item position) head tail fun v vs => rfl

theorem convertsAll_fields {fields : List (String × StaticType)}
    (each : ∀ f ∈ fields, f.2.Faithful) (position : Nat) :
    ConvertsAll ((fieldShapes fields).map Prod.snd) (fieldValues fields)
      fun vs => fieldsOfValues fields ⟨position, vs⟩ := by
  induction fields generalizing position with
  | nil => exact .nil (fun _ => rfl) rfl
  | cons f fields ih =>
    have head := each f List.mem_cons_self
    have tail := ih (fun g hg => each g (List.mem_cons_of_mem f hg)) (position + 1)
    exact .cons (.field position f.1) head tail fun v vs => rfl

theorem faithful_tuple {items : List StaticType} (each : ∀ t ∈ items, t.Faithful) :
    (tuple items).Faithful := by
  refine (convertsAll_items each 0).composite (fun _ _ => Value.tuple.inj) ?_ ?_
  · intro v x
    rw [length_itemShapes]
    cases v with
    | tuple vs =>
      have meaning : ofValue (.tuple items) (.tuple vs) =
          if vs.length = items.length then itemsOfValues 0 items vs
          else atRoot (Shape.wrongKind (.tuple (itemShapes items)) (.tuple vs)) := rfl
      rw [meaning]
      constructor
      · intro h
        split at h
        · next size => exact ⟨vs, rfl, size, h⟩
        · cases h
      · rintro ⟨_, ⟨⟩, size, found⟩
        rw [if_pos size]
        exact found
    | _ => exact ⟨nofun, nofun⟩
  · intro v bytes h
    obtain ⟨vs, encodings, rfl, separate, -⟩ := Shape.encodeBytes_tuple_iff.1 h
    exact ⟨vs, encodings, rfl, separate⟩

theorem faithful_record {name : String} {fields : List (String × StaticType)}
    (each : ∀ f ∈ fields, f.2.Faithful) : (record name fields).Faithful := by
  refine (convertsAll_fields each 0).composite (fun _ _ => Value.record.inj) ?_ ?_
  · intro v x
    have meaning : ofValue (.record name fields) v =
        atRoot (takeFields v (.record name (fieldShapes fields)) fields.length) >>=
          fieldsOfValues fields := rfl
    rw [meaning, List.length_map, length_fieldShapes]
    constructor
    · intro h
      obtain ⟨cursor, taken, found⟩ := bind_eq_ok_iff.1 h
      obtain ⟨vs, rfl, size, rfl⟩ := takeFields_eq_ok_iff.1 (atRoot_eq_ok.1 taken)
      exact ⟨vs, rfl, size, found⟩
    · rintro ⟨vs, rfl, size, found⟩
      refine bind_eq_ok_iff.2 ⟨⟨0, vs⟩, ?_, found⟩
      exact atRoot_eq_ok.2 (takeFields_eq_ok_iff.2 ⟨vs, rfl, size, rfl⟩)
  · intro v bytes h
    obtain ⟨vs, encodings, rfl, separate, -⟩ := Shape.encodeBytes_record_iff.1 h
    exact ⟨vs, encodings, rfl, separate⟩

/-- **Every type's values are converted faithfully**, by induction over the
type. -/
theorem faithful (t : StaticType) : t.Faithful := by
  induction t using induct with
  | unsigned w => exact faithful_unsigned w
  | signed w => exact faithful_signed w
  | bool => exact faithful_bool
  | felt => exact faithful_felt
  | fixed => exact faithful_fixed
  | bytes => exact faithful_bytes
  | list t each => exact faithful_list each
  | tuple items each => exact faithful_tuple each
  | record name fields each => exact faithful_record each

/-! ## Decoding -/

variable {t : StaticType} {bytes : List UInt8}

/-- What decodes under a type's shape can be converted to the type, since it can
be written and `Faithful` is total. -/
theorem exists_ofValue_of_decode {v : Value} (read : t.shape.decode bytes = .ok v) :
    ∃ x, t.ofValue v = .ok x :=
  t.faithful.total (Shape.decode_eq_ok_iff.1 read)

theorem decode_eq_ok_iff {x : t.Carrier} :
    t.decode bytes = .ok x ↔ t.shape.decode bytes = .ok (t.toValue x) := by
  constructor
  · intro h
    obtain ⟨v, read, found⟩ := bind_eq_ok_iff.1 h
    rw [t.faithful.sound found]
    exact read
  · intro read
    obtain ⟨y, found⟩ := exists_ofValue_of_decode read
    have same : y = x := t.faithful.injective (t.faithful.sound found)
    exact bind_eq_ok_iff.2 ⟨_, read, same ▸ found⟩

theorem decode_eq_error_iff {e : WireError} :
    t.decode bytes = .error e ↔ t.shape.decode bytes = .error e := by
  rcases read : t.shape.decode bytes with f | v
  · have failed : t.decode bytes = .error f := by
      rw [decode, read]
      rfl
    rw [failed, Except.error.injEq, Except.error.injEq]
  · obtain ⟨x, found⟩ := exists_ofValue_of_decode read
    have converted : t.decode bytes = .ok x := bind_eq_ok_iff.2 ⟨v, read, found⟩
    rw [converted]
    exact ⟨nofun, nofun⟩

/-- **A type is decoded as its shape is**: a value of the type is decoded
exactly where what it stands for (`toValue`) is, and an error is reported
exactly where it is for the shape, since no value that decodes under the shape
fails to be converted. And what was written is decoded to the value that was
written. -/
theorem decode_refines_shape (t : StaticType) (bytes : List UInt8) :
    (∀ x, t.decode bytes = .ok x ↔ t.shape.decode bytes = .ok (t.toValue x)) ∧
    (∀ e, t.decode bytes = .error e ↔ t.shape.decode bytes = .error e) ∧
    (∀ v, t.shape.decode bytes = .ok v → ∃ x, t.ofValue v = .ok x) ∧
    ∀ x, t.encode x = .ok bytes → t.decode bytes = .ok x := by
  refine ⟨?_, ?_, ?_, ?_⟩
  · intro x
    exact decode_eq_ok_iff
  · intro e
    exact decode_eq_error_iff
  · intro v
    exact exists_ofValue_of_decode
  · intro x written
    apply decode_eq_ok_iff.2
    exact Shape.decode_eq_ok_iff.2 written

/-- A record of a number, a list of pairs and a byte string. -/
def quoteType : StaticType :=
  .record "Quote" [("id", .unsigned .w32), ("lines", .list (.tuple [.signed .w64, .bool])),
    ("memo", .bytes)]

/-- A value of `quoteType` with one line. -/
def quote : quoteType.Carrier :=
  (⟨7, by decide⟩, [(⟨-3, by decide⟩, true, ())], [0x6f, 0x6b], ())

theorem decode_refines_shape_quote : ∃ bytes, quoteType.encode quote = .ok bytes ∧
    quoteType.decode bytes = .ok quote ∧
      quoteType.shape.decode bytes = .ok (quoteType.toValue quote) ∧
      ∃ x, quoteType.ofValue (quoteType.toValue quote) = .ok x := by
  obtain ⟨bytes, written⟩ : ∃ bytes, quoteType.encode quote = .ok bytes := ⟨_, rfl⟩
  obtain ⟨same, -, converted, back⟩ := decode_refines_shape quoteType bytes
  have decoded := back quote written
  have read := (same quote).1 decoded
  exact ⟨bytes, written, decoded, read, converted _ read⟩

end FeltWire.StaticType

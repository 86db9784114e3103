import FeltWire.Codec.Decode

/-!
# Components

The fields of a record, the items of a tuple and the elements of a sequence are
written and read in one way: each at its own step and under its own shape, one
after another. They are treated here once, as a list of steps with shapes. What
a composite value is written as is then a statement about the encodings of its
components, each on its own.

## Main definitions

* `Shape.fieldComponents`, `Shape.itemComponents`, `Shape.elementComponents`:
  the components of each kind of composite value
* `Shape.encodeComponents`, `Shape.readComponents`: writing and reading a list
  of components
* `Shape.Encodings`: values, each with its shape and its own encoding

## Main results

* `encodeFields_eq`, `encodeItems_eq`, `encodeElements_eq` and the same for
  reading: each kind of composite value is a list of components
* `encodeBytes_record_iff`, `encodeBytes_sequence_iff`, `encodeBytes_tuple_iff`:
  what composite values are written as
-/

namespace FeltWire.Shape

/-! ## Lists of components -/

/-- The fields of a record, the first of which has the given `position`, each
behind its `Step.field`. -/
def fieldComponents (position : Nat) (fields : List (String × Shape)) : List (Step × Shape) :=
  fields.mapIdx fun i f => (.field (position + i) f.1, f.2)

/-- The items of a tuple, the first of which has the given `position`, each
behind its `Step.item`. -/
def itemComponents (position : Nat) (items : List Shape) : List (Step × Shape) :=
  items.mapIdx fun i s => (.item (position + i), s)

/-- The elements of a sequence, the first of which has the given `index`, each
behind its `Step.element`. -/
def elementComponents (s : Shape) (index count : Nat) : List (Step × Shape) :=
  (List.replicate count s).mapIdx fun i s => (.element (index + i), s)

/-- The words of values, one after another, each located at its step. Fields,
items and elements are all written so. -/
def encodeComponents : List (Step × Shape) → List Value → Except WireError (List Felt)
  | (step, s) :: components, v :: vs => do
    let head ← atStep step (s.encode v)
    let tail ← encodeComponents components vs
    return head ++ tail
  | _, _ => .ok []

/-- Values one after another, each located at its step; the reverse of
`encodeComponents`. -/
def readComponents : List (Step × Shape) → Reader WireError (List Value)
  | [] => return []
  | (step, s) :: components => do
    let v ← Reader.atStep step s.read
    let vs ← readComponents components
    return v :: vs

theorem fieldComponents_cons (position : Nat) (name : String) (s : Shape)
    (fields : List (String × Shape)) : fieldComponents position ((name, s) :: fields) =
      (.field position name, s) :: fieldComponents (position + 1) fields := by
  simp [fieldComponents, List.mapIdx_cons, Nat.add_assoc, Nat.add_comm 1]

theorem itemComponents_cons (position : Nat) (s : Shape) (items : List Shape) :
    itemComponents position (s :: items) =
      (.item position, s) :: itemComponents (position + 1) items := by
  simp [itemComponents, List.mapIdx_cons, Nat.add_assoc, Nat.add_comm 1]

theorem elementComponents_succ (s : Shape) (index count : Nat) :
    elementComponents s index (count + 1) =
      (.element index, s) :: elementComponents s (index + 1) count := by
  simp [elementComponents, List.replicate_succ, List.mapIdx_cons, Nat.add_assoc, Nat.add_comm 1]

@[simp] theorem length_fieldComponents (position : Nat) (fields : List (String × Shape)) :
    (fieldComponents position fields).length = fields.length := List.length_mapIdx

@[simp] theorem length_itemComponents (position : Nat) (items : List Shape) :
    (itemComponents position items).length = items.length := List.length_mapIdx

@[simp] theorem length_elementComponents (s : Shape) (index count : Nat) :
    (elementComponents s index count).length = count := by
  rw [elementComponents, List.length_mapIdx, List.length_replicate]

@[simp] theorem map_snd_fieldComponents (position : Nat) (fields : List (String × Shape)) :
    (fieldComponents position fields).map Prod.snd = fields.map Prod.snd := by
  induction fields generalizing position with
  | nil => rfl
  | cons f fields ih => rw [fieldComponents_cons, List.map_cons, ih, List.map_cons]

@[simp] theorem map_snd_itemComponents (position : Nat) (items : List Shape) :
    (itemComponents position items).map Prod.snd = items := by
  induction items generalizing position with
  | nil => rfl
  | cons s items ih => rw [itemComponents_cons, List.map_cons, ih]

@[simp] theorem map_snd_elementComponents (s : Shape) (index count : Nat) :
    (elementComponents s index count).map Prod.snd = List.replicate count s := by
  induction count generalizing index with
  | zero => rfl
  | succ count ih => rw [elementComponents_succ, List.map_cons, ih, List.replicate_succ]

theorem getElem?_fieldComponents {fields : List (String × Shape)} {i : Nat}
    {component : Step × Shape} : (fieldComponents 0 fields)[i]? = some component ↔
      ∃ field, fields[i]? = some field ∧ (.field i field.1, field.2) = component := by
  rw [fieldComponents, List.getElem?_mapIdx, Option.map_eq_some_iff, Nat.zero_add]

theorem getElem?_itemComponents {items : List Shape} {i : Nat} {component : Step × Shape} :
    (itemComponents 0 items)[i]? = some component ↔
      ∃ s, items[i]? = some s ∧ (.item i, s) = component := by
  rw [itemComponents, List.getElem?_mapIdx, Option.map_eq_some_iff, Nat.zero_add]

theorem getElem?_elementComponents {s : Shape} {count i : Nat} {component : Step × Shape} :
    (elementComponents s 0 count)[i]? = some component ↔
      i < count ∧ (.element i, s) = component := by
  rw [elementComponents, List.getElem?_mapIdx, Nat.zero_add, List.getElem?_replicate]
  split
  · next inside => simp only [Option.map_some, Option.some.injEq, inside, true_and]
  · next outside => simp only [Option.map_none, reduceCtorEq, outside, false_and]

/-! ## Composite values are lists of components -/

theorem encodeFields_eq (position : Nat) (fields : List (String × Shape)) (vs : List Value) :
    encodeFields position fields vs = encodeComponents (fieldComponents position fields) vs := by
  induction fields generalizing position vs with
  | nil => cases vs <;> rfl
  | cons f fields ih =>
    obtain ⟨name, s⟩ := f
    rw [fieldComponents_cons]
    cases vs with
    | nil => rfl
    | cons v vs => rw [encodeFields, encodeComponents, ih]

theorem encodeItems_eq (position : Nat) (items : List Shape) (vs : List Value) :
    encodeItems position items vs = encodeComponents (itemComponents position items) vs := by
  induction items generalizing position vs with
  | nil => cases vs <;> rfl
  | cons s items ih =>
    rw [itemComponents_cons]
    cases vs with
    | nil => rfl
    | cons v vs => rw [encodeItems, encodeComponents, ih]

theorem encodeElements_eq (s : Shape) (index : Nat) (vs : List Value) :
    encodeElements s.encode index vs =
      encodeComponents (elementComponents s index vs.length) vs := by
  induction vs generalizing index with
  | nil => rfl
  | cons v vs ih => rw [List.length_cons, elementComponents_succ, encodeElements,
      encodeComponents, ih]

theorem readFields_eq (position : Nat) (fields : List (String × Shape)) :
    readFields position fields = readComponents (fieldComponents position fields) := by
  induction fields generalizing position with
  | nil => rfl
  | cons f fields ih =>
    obtain ⟨name, s⟩ := f
    rw [fieldComponents_cons, readFields, readComponents, ih]

theorem readItems_eq (position : Nat) (items : List Shape) :
    readItems position items = readComponents (itemComponents position items) := by
  induction items generalizing position with
  | nil => rfl
  | cons s items ih => rw [itemComponents_cons, readItems, readComponents, ih]

theorem readElements_eq (s : Shape) (index count : Nat) :
    readElements s.read index count = readComponents (elementComponents s index count) := by
  induction count generalizing index with
  | zero => rfl
  | succ count ih => rw [elementComponents_succ, readElements, readComponents, ih]

theorem read_record (name : String) (fields : List (String × Shape)) :
    (record name fields).read =
      do return .record (← readComponents (fieldComponents 0 fields)) := by
  rw [read, readFields_eq]

theorem read_sequence (s : Shape) : s.sequence.read = do
    Reader.atRoot (.lift s.checkElement)
    let count ← Reader.atRoot (.scalar (decodeUnsigned lengthWidth))
    Reader.atRoot (.require count)
    return .sequence (← readComponents (elementComponents s 0 count)) := by
  simp only [read, readElements_eq]

theorem read_tuple (items : List Shape) :
    (tuple items).read = do return .tuple (← readComponents (itemComponents 0 items)) := by
  rw [read, readItems_eq]

/-! ## Encodings of components -/

/-- **Values with their shapes and their encodings**, each encoded on its own by
`encodeBytes`. -/
inductive Encodings : List Shape → List Value → List (List UInt8) → Prop
  | nil : Encodings [] [] []
  | cons {s : Shape} {v : Value} {bytes : List UInt8} {shapes : List Shape} {vs : List Value}
      {encodings : List (List UInt8)} (head : s.encodeBytes v = .ok bytes)
      (tail : Encodings shapes vs encodings) :
      Encodings (s :: shapes) (v :: vs) (bytes :: encodings)

namespace Encodings

variable {shapes : List Shape} {vs : List Value} {encodings : List (List UInt8)}

theorem length_eq (h : Encodings shapes vs encodings) : shapes.length = vs.length := by
  induction h with
  | nil => rfl
  | cons head tail ih => rw [List.length_cons, List.length_cons, ih]

end Encodings

/-- The words of a list of components are those of each component, one after
another. Writing locates each error, which does not matter where nothing
fails. -/
theorem encodeComponents_eq_ok_iff {components : List (Step × Shape)} {vs : List Value}
    {bytes : List UInt8} (size : components.length = vs.length) :
    (encodeComponents components vs).map wordBytes = .ok bytes ↔
      ∃ encodings, Encodings (components.map Prod.snd) vs encodings ∧
        encodings.flatten = bytes := by
  induction components generalizing vs bytes with
  | nil =>
    obtain rfl : vs = [] := List.length_eq_zero_iff.1 size.symm
    constructor
    · intro h
      cases h
      exact ⟨[], .nil, rfl⟩
    · rintro ⟨_, ⟨⟩, rfl⟩
      rfl
  | cons component components ih =>
    obtain ⟨step, s⟩ := component
    rcases vs with _ | ⟨v, vs⟩
    · cases size
    · have ih {bytes : List UInt8} := @ih vs bytes (Nat.succ.inj size)
      simp only [encodeComponents, map_eq_ok_iff, bind_eq_ok_iff, pure_eq_ok_iff,
        atStep_eq_ok, List.map_cons] at ih ⊢
      constructor
      · rintro ⟨_, ⟨head, hhead, tail, htail, rfl⟩, rfl⟩
        obtain ⟨encodings, each, joined⟩ := ih.1 ⟨tail, htail, rfl⟩
        have written := encodeBytes_eq_ok_iff.2 ⟨head, hhead, rfl⟩
        refine ⟨wordBytes head :: encodings, .cons written each, ?_⟩
        rw [List.flatten_cons, joined, wordBytes_append]
      · rintro ⟨_, ⟨⟩ | ⟨hhead, each⟩, rfl⟩
        obtain ⟨head, words, rfl⟩ := encodeBytes_eq_ok_iff.1 hhead
        obtain ⟨tail, htail, joined⟩ := ih.2 ⟨_, each, rfl⟩
        refine ⟨_, ⟨head, words, tail, htail, rfl⟩, ?_⟩
        rw [wordBytes_append, joined, List.flatten_cons]

/-! ## Encodings of byte strings and composite values -/

/-- **A byte string** is written as its words, those of `ByteString.encode`. -/
theorem encodeBytes_bytes_iff {v : Value} {bytes : List UInt8} :
    Shape.bytes.encodeBytes v = .ok bytes ↔
      ∃ data, v = .bytes data ∧ (ByteString.encode data).map wordBytes = .ok bytes := by
  cases v with
  | bytes data => simp [encodeBytes_eq_ok_iff, encode, map_eq_ok_iff]
  | _ => simp [encodeBytes, encode, wrongKind, Except.map]

theorem checkArity_eq_ok_iff {s : Shape} {expected found : Nat} :
    s.checkArity expected found = .ok () ↔ expected = found := by
  unfold checkArity
  split <;> simp_all

theorem checkElement_eq_ok_iff {s : Shape} :
    s.checkElement = .ok () ↔ s.fixedWords ≠ some 0 := by
  unfold checkElement
  split <;> simp_all

/-- The components of a record or a tuple are written if there are as many
values as shapes, which `checkArity` tests. -/
theorem checked_components_eq_ok_iff {s : Shape} {components : List (Step × Shape)}
    {vs : List Value} {bytes : List UInt8} :
    (do
      atRoot (s.checkArity components.length vs.length)
      encodeComponents components vs).map wordBytes = .ok bytes ↔
      ∃ encodings, Encodings (components.map Prod.snd) vs encodings ∧
        encodings.flatten = bytes := by
  constructor
  · intro h
    obtain ⟨words, written, joined⟩ := map_eq_ok_iff.1 h
    obtain ⟨⟨⟩, arity, written⟩ := bind_eq_ok_iff.1 written
    have size := checkArity_eq_ok_iff.1 (atRoot_eq_ok.1 arity)
    exact (encodeComponents_eq_ok_iff size).1 (map_eq_ok_iff.2 ⟨words, written, joined⟩)
  · rintro ⟨encodings, each, joined⟩
    have size : components.length = vs.length := by simpa using each.length_eq
    rw [checkArity_eq_ok_iff.2 size]
    exact (encodeComponents_eq_ok_iff size).2 ⟨encodings, each, joined⟩

/-- **A record** is written as its `fields`, by `Encodings` of their shapes. -/
theorem encodeBytes_record_iff {name : String} {fields : List (String × Shape)} {v : Value}
    {bytes : List UInt8} : (record name fields).encodeBytes v = .ok bytes ↔
      ∃ vs encodings, v = .record vs ∧ Encodings (fields.map Prod.snd) vs encodings ∧
        encodings.flatten = bytes := by
  cases v with
  | record vs =>
    rw [encodeBytes, encode, encodeFields_eq, ← length_fieldComponents 0 fields,
      checked_components_eq_ok_iff, map_snd_fieldComponents]
    simp
  | _ => simp [encodeBytes, encode, wrongKind, Except.map]

/-- **A tuple** is written as its `items`, by `Encodings` of their shapes. -/
theorem encodeBytes_tuple_iff {items : List Shape} {v : Value} {bytes : List UInt8} :
    (tuple items).encodeBytes v = .ok bytes ↔
      ∃ vs encodings, v = .tuple vs ∧ Encodings items vs encodings ∧
        encodings.flatten = bytes := by
  cases v with
  | tuple vs =>
    rw [encodeBytes, encode, encodeItems_eq, ← length_itemComponents 0 items,
      checked_components_eq_ok_iff, map_snd_itemComponents]
    simp
  | _ => simp [encodeBytes, encode, wrongKind, Except.map]

/-- **A sequence** is written as the number of its elements and the elements,
which have to take words: `s.fixedWords` is not 0. -/
theorem encodeBytes_sequence_iff {s : Shape} {v : Value} {bytes : List UInt8} :
    s.sequence.encodeBytes v = .ok bytes ↔
      ∃ vs count encodings, v = .sequence vs ∧ s.fixedWords ≠ some 0 ∧
        encodeUnsigned lengthWidth vs.length = .ok count ∧
        Encodings (List.replicate vs.length s) vs encodings ∧
        count.toBytes ++ encodings.flatten = bytes := by
  cases v with
  | sequence vs =>
    have each {bytes : List UInt8} :=
      @encodeComponents_eq_ok_iff _ _ bytes (length_elementComponents s 0 vs.length)
    simp only [map_snd_elementComponents, map_eq_ok_iff] at each
    simp only [encodeBytes, encode, encodeElements_eq, map_eq_ok_iff, bind_eq_ok_iff,
      pure_eq_ok_iff, atRoot_eq_ok]
    constructor
    · rintro ⟨_, ⟨⟨⟩, positive, count, fits, elements, written, rfl⟩, rfl⟩
      obtain ⟨encodings, separate, joined⟩ := each.1 ⟨elements, written, rfl⟩
      exact ⟨vs, count, encodings, rfl, checkElement_eq_ok_iff.1 positive, fits, separate, by
        rw [joined, wordBytes_cons]⟩
    · rintro ⟨_, count, encodings, ⟨⟩, positive, fits, separate, rfl⟩
      obtain ⟨elements, written, joined⟩ := each.2 ⟨encodings, separate, rfl⟩
      exact ⟨_, ⟨⟨⟩, checkElement_eq_ok_iff.2 positive, count, fits, elements, written, rfl⟩, by
        rw [wordBytes_cons, joined]⟩
  | _ => simp [encodeBytes, encode, wrongKind, Except.map]

end FeltWire.Shape

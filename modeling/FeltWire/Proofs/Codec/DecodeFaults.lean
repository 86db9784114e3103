import FeltWire.Proofs.Codec.Framing
import FeltWire.Proofs.Reader.Runs
import Mathlib.Data.List.Forall2

/-!
# Decoding faults are where they are said to be

The error of bytes that cannot be decoded leads to the component at fault, and
to a place in the bytes. Its steps are followed from the outside in, through a
field of a record, an item of a tuple or an element of a sequence at a time. The
bytes up to the place are the counts of the sequences on the way and the
encodings of all components in front of those that are named. What the steps end
at fails by itself on the bytes from there on, with the same fault and without
any further step.

## Why the place is found

Nothing is read twice, so that a component starts where the one in front of it
has stopped, and what was read as a value before are the bytes of that value. A
component that fails at this place fails in the same way on the bytes from there
on, since nothing in a reading step sees how many bytes came before it. A
sequence has faults of its own, its kind of elements, its count and too few
words for the count. They are found before any element is read and get no step.

## Main definitions

* `Shape.Decoded`: the bytes of components one after another, each of which
  decodes
* `Shape.LeadsThrough`: steps lead from a shape through bytes to the shape of a
  component
* `Shape.ReadPinpoints`, `Shape.PinpointsFaults`: an error leads to a component
  that fails by itself at its place, and all errors of a shape do

## Main results

* `Shape.disciplined_read`: values are read in disciplined steps
* `readComponents_eq_error`: which component of a list fails, and where
* `readPinpoints_within`: from the component that fails to the whole
* `pinpointsFaults_record`, `pinpointsFaults_sequence`, `pinpointsFaults_tuple`,
  `pinpointsFaults`: every error pinpoints its fault, by kinds and for all
  shapes
* `decode_error_located`: where an error of decoding leads
-/

namespace FeltWire.Shape

/-! ## Values are read in disciplined steps -/

theorem disciplined_scalar {α : Type} (decode : Felt → Except Fault α) :
    Reader.Disciplined (Reader.scalar decode) :=
  Reader.disciplined_word.bind fun x => .lift (decode x)

theorem disciplined_readComponents {components : List (Step × Shape)}
    (each : ∀ s ∈ components.map Prod.snd, Reader.Disciplined s.read) :
    Reader.Disciplined (readComponents components) := by
  induction components with
  | nil => exact .pure []
  | cons component components ih =>
    obtain ⟨step, s⟩ := component
    have head : Reader.Disciplined (Reader.atStep step s.read) :=
      (each s List.mem_cons_self).mapError _
    have tail := ih fun t ht => each t (List.mem_cons_of_mem _ ht)
    exact head.bind fun v => tail.map (v :: ·)

/-- **Values are read in disciplined steps**: `read` is `Reader.Disciplined`
under every shape. -/
theorem disciplined_read (s : Shape) : Reader.Disciplined s.read := by
  induction s using inductScalar with
  | scalar s scalar =>
    cases s with
    | unsigned w => exact ((disciplined_scalar (decodeUnsigned w)).mapError _).map _
    | signed w => exact ((disciplined_scalar (decodeSigned w)).mapError _).map _
    | bool => exact ((disciplined_scalar decodeBool).mapError _).map _
    | felt => exact (Reader.disciplined_word.mapError _).map _
    | fixed scale => exact ((disciplined_scalar (Fixed.decode scale)).mapError _).map _
    | bytes | record | sequence | tuple => exact scalar.elim
  | bytes => exact (ByteString.disciplined_read.mapError _).map _
  | record name fields ih =>
    rw [read_record]
    refine (disciplined_readComponents ?_).map _
    rw [map_snd_fieldComponents]
    exact List.forall_mem_map.2 ih
  | sequence s ih =>
    rw [read_sequence]
    apply ((Reader.Disciplined.lift s.checkElement).mapError _).bind
    intro _
    apply ((disciplined_scalar (decodeUnsigned lengthWidth)).mapError _).bind
    intro count
    apply ((Reader.disciplined_require count).mapError _).bind
    intro _
    refine (disciplined_readComponents ?_).map _
    rw [map_snd_elementComponents]
    exact List.forall_mem_replicate.2 (.inr ih)
  | tuple items ih =>
    rw [read_tuple]
    refine (disciplined_readComponents ?_).map _
    rwa [map_snd_itemComponents]

/-! ## The way through the bytes -/

/-- **The bytes of components one after another**, each of which is the encoding
of a value under the shape at its place and decodes to it. -/
def Decoded (shapes : List Shape) (parts : List (List UInt8)) : Prop :=
  List.Forall₂ (fun s part => ∃ v, s.encodeBytes v = .ok part ∧ s.decode part = .ok v) shapes parts

/-- **Steps lead through bytes to a component.** The bytes are those in
front of the component: at each step, the encodings of the components in
front of the one that is named (`Decoded`), and in a sequence the word of
its count before them. -/
inductive LeadsThrough : Shape → List Step → List UInt8 → Shape → Prop
  /-- No step leads away, and no byte is in front. -/
  | here {s : Shape} : LeadsThrough s [] [] s
  /-- Through the `field` of a record that has the position `i`, and the name
  that stands in the step. -/
  | field {name : String} {fields : List (String × Shape)} {i : Nat} {field : String × Shape}
      {parts : List (List UInt8)} {steps : List Step} {front : List UInt8} {t : Shape}
      (shape : fields[i]? = some field) (before : Decoded ((fields.map Prod.snd).take i) parts)
      (rest : LeadsThrough field.2 steps front t) :
      LeadsThrough (.record name fields) (.field i field.1 :: steps) (parts.flatten ++ front) t
  /-- Through the item of a tuple that has the position `i`. -/
  | item {items : List Shape} {i : Nat} {s : Shape} {parts : List (List UInt8)}
      {steps : List Step} {front : List UInt8} {t : Shape} (shape : items[i]? = some s)
      (before : Decoded (items.take i) parts) (rest : LeadsThrough s steps front t) :
      LeadsThrough (.tuple items) (.item i :: steps) (parts.flatten ++ front) t
  /-- Through the element of a sequence that has the index `i`. -/
  | element {s : Shape} {count : Nat} {word : Felt} {i : Nat} {parts : List (List UInt8)}
      {steps : List Step} {front : List UInt8} {t : Shape}
      (counted : encodeUnsigned lengthWidth count = .ok word) (inside : i < count)
      (before : Decoded (List.replicate i s) parts) (rest : LeadsThrough s steps front t) :
      LeadsThrough (.sequence s) (.element i :: steps) (word.toBytes ++ (parts.flatten ++ front)) t

theorem dvd_length_of_encodeBytes {s : Shape} {v : Value} {bytes : List UInt8}
    (h : s.encodeBytes v = .ok bytes) : 32 ∣ bytes.length := by
  obtain ⟨words, -, rfl⟩ := encodeBytes_eq_ok_iff.1 h
  rw [length_wordBytes]
  exact Nat.dvd_mul_left ..

theorem Decoded.dvd_length {shapes : List Shape} {parts : List (List UInt8)}
    (h : Decoded shapes parts) : 32 ∣ parts.flatten.length := by
  induction h with
  | nil => exact Nat.dvd_zero 32
  | cons head tail ih =>
    obtain ⟨v, written, -⟩ := head
    rw [List.flatten_cons, List.length_append]
    exact Nat.dvd_add (dvd_length_of_encodeBytes written) ih

/-- The place of a component is a whole number of words from the start, as
`LeadsThrough` only passes encodings. -/
theorem LeadsThrough.dvd_length {s t : Shape} {steps : List Step} {front : List UInt8}
    (h : LeadsThrough s steps front t) : 32 ∣ front.length := by
  induction h with
  | here => exact Nat.dvd_zero 32
  | field shape before rest ih | item shape before rest ih =>
    rw [List.length_append]
    exact Nat.dvd_add before.dvd_length ih
  | element counted inside before rest ih =>
    rw [List.length_append, List.length_append, Felt.length_toBytes]
    exact Nat.dvd_add (Nat.dvd_refl 32) (Nat.dvd_add before.dvd_length ih)

/-- **The component that fails** starts where those in front of it have stopped
(`middle`), and its error gets its step. -/
theorem readComponents_eq_error {components : List (Step × Shape)} {c after : Cursor}
    {e : WireError} (h : (readComponents components).outcome c = (.error e, after)) :
    ∃ i component parts middle inner, components[i]? = some component ∧
      Decoded ((components.map Prod.snd).take i) parts ∧ c.rest = parts.flatten ++ middle.rest ∧
      component.2.read.outcome middle = (.error inner, after) ∧ inner.within component.1 = e := by
  induction components generalizing c with
  | nil => cases (Prod.mk.inj h).1
  | cons component components ih =>
    obtain ⟨step, s⟩ := component
    rw [readComponents] at h
    rcases Reader.outcome_bind_eq_error_iff.1 h with first | ⟨v, next, read, later⟩
    · obtain ⟨inner, failed, rfl⟩ := Reader.outcome_mapError_eq_error_iff.1 first
      exact ⟨0, (step, s), [], c, inner, rfl, .nil, rfl, failed, rfl⟩
    · obtain ⟨i, component, parts, middle, inner, at_i, before, split, failed, located⟩ :=
        ih (Reader.outcome_map_eq_error_iff.1 later)
      obtain ⟨part, written, split'⟩ :=
        s.exact_read.canonical (Reader.outcome_mapError_eq_ok_iff.1 read)
      refine ⟨i + 1, component, part :: parts, middle, inner, at_i,
        .cons ⟨v, written, decode_eq_ok_iff.2 written⟩ before, ?_, failed, located⟩
      rw [split', split, List.flatten_cons, List.append_assoc]

/-! ## The way to a fault -/

/-- **An error pinpoints its fault**: it leads through the bytes in front of a
cursor to a component that fails by itself with this fault (`LeadsThrough`). -/
def ReadPinpoints (s : Shape) (c : Cursor) (e : WireError) : Prop :=
  ∃ t front middle, LeadsThrough s e.steps front t ∧ c.rest = front ++ middle.rest ∧
    (t.read.outcome middle).1 = .error (.here e.fault)

/-- Whatever error comes of reading a value pinpoints its fault, wherever the
cursor stands. -/
abbrev PinpointsFaults (s : Shape) : Prop :=
  ∀ c e after, s.read.outcome c = (.error e, after) → s.ReadPinpoints c e

variable {s : Shape} {c after : Cursor} {e : WireError}

/-- A fault of the value itself is where the way starts, with no step. -/
theorem readPinpoints_here {α : Type} {r : Reader Fault α} {place : Cursor}
    (h : s.read.outcome c = (.error e, after))
    (root : (Reader.atRoot r).outcome place = (.error e, after)) : s.ReadPinpoints c e := by
  obtain ⟨fault, -, rfl⟩ := Reader.outcome_mapError_eq_error_iff.1 root
  exact ⟨s, [], c, .here, rfl, congrArg Prod.fst h⟩

/-- What is read as a whole (`whole`) has no component to be at fault. -/
theorem pinpointsFaults_whole {α : Type} {r : Reader Fault α} {make : α → Value}
    (whole : s.read = do return make (← Reader.atRoot r)) : s.PinpointsFaults := by
  intro c e after h
  have root := h
  rw [whole] at root
  exact readPinpoints_here h (Reader.outcome_map_eq_error_iff.1 root)

/-- **From the component that fails to the whole**, if there is a step from the
whole to each of its components (`step`). The bytes `head` stand in front of the
first one. -/
theorem readPinpoints_within (head : List UInt8) {components : List (Step × Shape)}
    {shapes : List Shape} {first : Cursor} (hc : components.map Prod.snd = shapes)
    (start : c.rest = head ++ first.rest)
    (h : (readComponents components).outcome first = (.error e, after))
    (each : ∀ t ∈ shapes, t.PinpointsFaults)
    (step : ∀ i component parts steps front t, components[i]? = some component →
      Decoded (shapes.take i) parts → LeadsThrough component.2 steps front t →
      LeadsThrough s (component.1 :: steps) (head ++ (parts.flatten ++ front)) t) :
    s.ReadPinpoints c e := by
  subst hc
  obtain ⟨i, component, parts, middle, inner, at_i, before, split, failed, rfl⟩ :=
    readComponents_eq_error h
  have mem := List.mem_map_of_mem (f := Prod.snd) (List.mem_of_getElem? at_i)
  obtain ⟨t, front, place, way, split', alone⟩ := each component.2 mem middle inner after failed
  refine ⟨t, _, place, step i component parts _ front t at_i before way, ?_, alone⟩
  rw [start, split, split', List.append_assoc, List.append_assoc]

theorem pinpointsFaults_record {name : String} {fields : List (String × Shape)}
    (each : ∀ f ∈ fields, f.2.PinpointsFaults) : (record name fields).PinpointsFaults := by
  intro c e after h
  rw [read_record] at h
  apply readPinpoints_within [] (map_snd_fieldComponents 0 fields) rfl
    (Reader.outcome_map_eq_error_iff.1 h) (List.forall_mem_map.2 each)
  intro i component parts steps front t at_i before way
  obtain ⟨field, shape, rfl⟩ := getElem?_fieldComponents.1 at_i
  exact .field shape before way

theorem pinpointsFaults_tuple {items : List Shape} (each : ∀ s ∈ items, s.PinpointsFaults) :
    (tuple items).PinpointsFaults := by
  intro c e after h
  rw [read_tuple] at h
  apply readPinpoints_within [] (map_snd_itemComponents 0 items) rfl
    (Reader.outcome_map_eq_error_iff.1 h) each
  intro i component parts steps front t at_i before way
  obtain ⟨item, shape, rfl⟩ := getElem?_itemComponents.1 at_i
  exact .item shape before way

/-- The elements of a sequence start behind the word of its `count`. -/
theorem readPinpoints_elements {count : Nat} {word : Felt} {first : Cursor}
    (element : s.PinpointsFaults) (counted : encodeUnsigned lengthWidth count = .ok word)
    (start : c.rest = word.toBytes ++ first.rest)
    (h : (readComponents (elementComponents s 0 count)).outcome first = (.error e, after)) :
    s.sequence.ReadPinpoints c e := by
  have each : ∀ t ∈ List.replicate count s, t.PinpointsFaults :=
    List.forall_mem_replicate.2 (.inr element)
  apply readPinpoints_within word.toBytes (map_snd_elementComponents s 0 count) start h each
  intro i component parts steps front t at_i before way
  obtain ⟨inside, rfl⟩ := getElem?_elementComponents.1 at_i
  rw [List.take_replicate, Nat.min_eq_left (Nat.le_of_lt inside)] at before
  exact .element counted inside before way

theorem pinpointsFaults_sequence (element : s.PinpointsFaults) : s.sequence.PinpointsFaults := by
  intro c e after h
  have parts := h
  rw [read_sequence] at parts
  rcases Reader.outcome_bind_eq_error_iff.1 parts with checked | ⟨_, _, same, counted⟩
  · exact readPinpoints_here h checked
  rcases Reader.outcome_bind_eq_error_iff.1 counted with count | ⟨count, first, read, tested⟩
  · exact readPinpoints_here h count
  rcases Reader.outcome_bind_eq_error_iff.1 tested with short | ⟨_, _, enough, failed⟩
  · exact readPinpoints_here h short
  -- the two tests have not moved
  obtain rfl := (Prod.mk.inj same).2
  have tried := Reader.outcome_mapError_eq_ok_iff.1 enough
  obtain rfl := (Reader.outcome_require_snd count first).symm.trans (congrArg Prod.snd tried)
  obtain ⟨_, ⟨word, decoded, rfl⟩, split⟩ :=
    (Reader.exact_scalar (decodeUnsigned lengthWidth)).atRoot.canonical read
  exact readPinpoints_elements element (decodeUnsigned_eq_ok_iff.1 decoded) split
    (Reader.outcome_map_eq_error_iff.1 failed)

/-- **Every error pinpoints its fault.** In a sequence, the kind of elements,
their count and the room for them are looked at before any element is. -/
theorem pinpointsFaults (s : Shape) : s.PinpointsFaults := by
  induction s using inductScalar with
  | scalar s scalar =>
    cases s with
    | unsigned | signed | bool | felt | fixed => exact pinpointsFaults_whole rfl
    | bytes | record | sequence | tuple => exact scalar.elim
  | bytes => exact pinpointsFaults_whole rfl
  | record name fields ih => exact pinpointsFaults_record ih
  | sequence s ih => exact pinpointsFaults_sequence ih
  | tuple items ih => exact pinpointsFaults_tuple ih

/-- **Faults of decoding are where they are said to be.** Unless all that is
wrong is that bytes are left over (`inside`), the steps of an error lead to a
component and to a place `offset` in the bytes, a whole number of words from the
start. At each step, what was in front decodes (`LeadsThrough`); and from its
place on, the component fails by itself, with the same fault and no further
step. -/
theorem decode_error_located {s : Shape} {bytes : List UInt8} {e : WireError}
    (h : s.decode bytes = .error e) (inside : ∀ n, e ≠ ⟨[], .trailing n⟩) :
    ∃ t offset, offset ≤ bytes.length ∧ 32 ∣ offset ∧
      LeadsThrough s e.steps (bytes.take offset) t ∧
      t.decode (bytes.drop offset) = .error ⟨[], e.fault⟩ := by
  rw [decode_eq] at h
  split at h
  · next v after read =>
    split at h
    · cases h
    · cases h
      exact absurd rfl (inside _)
  · next e' after read =>
    cases h
    obtain ⟨t, front, middle, way, split, alone⟩ := s.pinpointsFaults _ _ _ read
    obtain rfl : bytes = front ++ middle.rest := split
    refine ⟨t, front.length, ?_, way.dvd_length, ?_, ?_⟩
    · rw [List.length_append]
      exact Nat.le_add_right ..
    · rwa [List.take_left]
    · rw [List.drop_left]
      have failed := (t.disciplined_read.outcome_start middle).trans alone
      exact decode_eq_error (Prod.ext_iff.2 ⟨failed, rfl⟩)

/-- Two lines of which the second has a change that does not fit. -/
theorem decode_error_located_line :
    let s : Shape := .record "Order" [("id", .unsigned .w8),
      ("lines", .sequence (.record "Line" [("open", .bool), ("change", .signed .w8)]))]
    let words : List Felt := [.reduce 7, .reduce 2, .reduce 1, .reduce 5, .reduce 0, .reduce 300]
    let e : WireError := ⟨[.field 1 "lines", .element 1, .field 1 "change"],
      .range (.word (.reduce 300)) .w8 true⟩
    s.decode (wordBytes words) = .error e ∧ (∀ n, e ≠ ⟨[], .trailing n⟩) ∧
      ∃ t offset, offset ≤ (wordBytes words).length ∧ 32 ∣ offset ∧
        LeadsThrough s e.steps ((wordBytes words).take offset) t ∧
        t.decode ((wordBytes words).drop offset) = .error ⟨[], e.fault⟩ := by
  intro s words e
  -- only the error is evaluated, not the value
  have unit : (s.decode (wordBytes words)).map (fun _ => ()) = .error e := by decide +kernel
  have failed := map_eq_error_iff.1 unit
  have inside : ∀ n, e ≠ ⟨[], .trailing n⟩ := fun n h => by cases congrArg Located.steps h
  exact ⟨failed, inside, decode_error_located failed inside⟩

end FeltWire.Shape

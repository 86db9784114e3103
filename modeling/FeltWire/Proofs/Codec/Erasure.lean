import FeltWire.Proofs.Codec.Exact
import FeltWire.Proofs.Correspondence
import Mathlib.Data.List.Basic

/-!
# Names are not written

The fields of a record are written in their order and without their names, just
as the items of a tuple are. Erasing turns every record of a shape or of a value
into the tuple of its components, at whatever depth. What is written does not
change by this, and what is read is the erased value of what would have been
read: a shape and its erased shape differ only in how they speak of what they
find.

## Why reading is compared and not writing

Reading a shape and its erased shape keep in step: they take the same words, and
where one fails the other fails for the same cause. A fault that names a shape
names the erased one, and a step through a field becomes a step through an item.
What is read determines what is written, so that the law for writing follows.

## Main definitions

* `Shape.erase`, `Value.erase`: every record as a tuple
* `Step.erase`: the same step without a name
* `WireError.Erased`: an error as the erased shape reports it
* `Shape.ReadsErased`: a shape and its erased shape are read in step

## Main results

* `fixedWords_erase`: erasing changes no size
* `readsErased_composite`, `readsErased_sequence`, `readsErased`: reading in
  step, by kinds and for all shapes
* `corresponds_decode`: decoding in step
* `names_not_written`: erasing changes neither what is written nor what is read
-/

namespace FeltWire

/-! ## Erasing -/

namespace Shape

mutual

/-- **The shape without names**: every `record` is the `tuple` of its erased
fields. -/
def erase : Shape → Shape
  | .record _ fields => .tuple (eraseFields fields)
  | .sequence s => .sequence s.erase
  | .tuple items => .tuple (eraseItems items)
  | s => s

/-- The erased shapes of the fields of a record, in their order. -/
def eraseFields : List (String × Shape) → List Shape
  | [] => []
  | (_, s) :: fields => s.erase :: eraseFields fields

/-- The erased shapes of the items of a tuple, in their order. -/
def eraseItems : List Shape → List Shape
  | [] => []
  | s :: items => s.erase :: eraseItems items

end

theorem eraseFields_eq (fields : List (String × Shape)) :
    eraseFields fields = (fields.map Prod.snd).map erase := by
  induction fields with
  | nil => rfl
  | cons f fields ih => rw [eraseFields, ih, List.map_cons, List.map_cons]

theorem eraseItems_eq (items : List Shape) : eraseItems items = items.map erase := by
  induction items with
  | nil => rfl
  | cons s items ih => rw [eraseItems, ih, List.map_cons]

@[simp] theorem erase_record (name : String) (fields : List (String × Shape)) :
    (record name fields).erase = .tuple ((fields.map Prod.snd).map erase) := by
  rw [erase, eraseFields_eq]

@[simp] theorem erase_sequence (s : Shape) : s.sequence.erase = .sequence s.erase := by
  rw [erase]

@[simp] theorem erase_tuple (items : List Shape) :
    (tuple items).erase = .tuple (items.map erase) := by
  rw [erase, eraseItems_eq]

/-- Erased items take as many words as the items do, as `itemWords` predicts. -/
theorem itemWords_map_erase {shapes : List Shape}
    (each : ∀ s ∈ shapes, s.erase.fixedWords = s.fixedWords) :
    itemWords (shapes.map erase) = itemWords shapes := by
  induction shapes with
  | nil => rfl
  | cons s shapes ih =>
    have head := each s List.mem_cons_self
    have tail := ih fun t ht => each t (List.mem_cons_of_mem _ ht)
    rw [List.map_cons, itemWords, itemWords, head, tail]

/-- **Erasing changes no size**, so that the elements of a sequence take words
exactly if the erased ones do, and `checkElement` refuses both or none. -/
@[simp] theorem fixedWords_erase (s : Shape) : s.erase.fixedWords = s.fixedWords := by
  induction s using inductScalar with
  | scalar s scalar =>
    cases s with
    | bytes | record | sequence | tuple => exact scalar.elim
    | _ => rfl
  | bytes => rfl
  | record name fields ih =>
    rw [erase_record, fixedWords, fixedWords, fieldWords_eq]
    exact itemWords_map_erase (List.forall_mem_map.2 ih)
  | sequence s ih => rw [erase_sequence, fixedWords, fixedWords]
  | tuple items ih =>
    rw [erase_tuple, fixedWords, fixedWords]
    exact itemWords_map_erase ih

end Shape

namespace Value

mutual

/-- **The value without names**: every `record` is the `tuple` of its erased
fields. -/
def erase : Value → Value
  | .record vs => .tuple (eraseAll vs)
  | .sequence vs => .sequence (eraseAll vs)
  | .tuple vs => .tuple (eraseAll vs)
  | v => v

/-- The erased values of components, in their order. -/
def eraseAll : List Value → List Value
  | [] => []
  | v :: vs => v.erase :: eraseAll vs

end

theorem eraseAll_eq (vs : List Value) : eraseAll vs = vs.map erase := by
  induction vs with
  | nil => rfl
  | cons v vs ih => rw [eraseAll, ih, List.map_cons]

@[simp] theorem erase_record (vs : List Value) : (record vs).erase = .tuple (vs.map erase) := by
  rw [erase, eraseAll_eq]

@[simp] theorem erase_sequence (vs : List Value) :
    (sequence vs).erase = .sequence (vs.map erase) := by
  rw [erase, eraseAll_eq]

@[simp] theorem erase_tuple (vs : List Value) : (tuple vs).erase = .tuple (vs.map erase) := by
  rw [erase, eraseAll_eq]

end Value

/-- The step without a name: a `field` is an `item`. -/
def Step.erase : Step → Step
  | .field position _ => .item position
  | step => step

/-! ## Errors under an erased shape -/

/-- A fault as the erased shape reports it: the same one, or that a sequence's
elements take no words, of which the erased shape is named. -/
inductive Fault.Erased : Fault → Fault → Prop
  | same {f : Fault} : Erased f f
  | emptyElement {element : Shape} :
      Erased (.mismatch (.emptyElement element)) (.mismatch (.emptyElement element.erase))

/-- **An error as the erased shape reports it**: the steps without names
(`Step.erase`), and the fault. -/
abbrev WireError.Erased : WireError → WireError → Prop :=
  Located.Corresponds Step.erase Fault.Erased

namespace Shape

/-! ## Reading in step -/

/-- **A shape and its erased shape are read in step**, in the sense of
`Reader.Corresponds`. -/
abbrev ReadsErased (s : Shape) : Prop :=
  Reader.Corresponds WireError.Erased (fun v v' => v.erase = v') s.read s.erase.read

/-- A component with its step, both without names. -/
def eraseComponent (component : Step × Shape) : Step × Shape :=
  (component.1.erase, component.2.erase)

/-- The fields of a record are the items of its erased shape, `position` by
position. -/
theorem map_eraseComponent_fieldComponents (position : Nat) (fields : List (String × Shape)) :
    (fieldComponents position fields).map eraseComponent =
      itemComponents position ((fields.map Prod.snd).map erase) := by
  induction fields generalizing position with
  | nil => rfl
  | cons f fields ih =>
    obtain ⟨name, s⟩ := f
    simp [fieldComponents_cons, itemComponents_cons, ih, eraseComponent, Step.erase]

theorem map_eraseComponent_itemComponents (position : Nat) (items : List Shape) :
    (itemComponents position items).map eraseComponent =
      itemComponents position (items.map erase) := by
  induction items generalizing position with
  | nil => rfl
  | cons s items ih => simp [itemComponents_cons, ih, eraseComponent, Step.erase]

theorem map_eraseComponent_elementComponents (s : Shape) (index count : Nat) :
    (elementComponents s index count).map eraseComponent =
      elementComponents s.erase index count := by
  induction count generalizing index with
  | zero => rfl
  | succ count ih => simp [elementComponents_succ, ih, eraseComponent, Step.erase]

/-- What is read of the value itself is not changed by erasing, as there is no
step to it. -/
theorem corresponds_atRoot {α : Type} (r : Reader Fault α) :
    Reader.Corresponds WireError.Erased Eq (Reader.atRoot r) (Reader.atRoot r) := by
  have alike : Reader.Corresponds Fault.Erased Eq r r := .refl (fun _ => .same) (fun _ => rfl) r
  exact alike.atRoot

/-- **Components are read in step** if `each` is. A fault of one is seen through
its step, which loses its name. -/
theorem corresponds_readComponents {components : List (Step × Shape)}
    (each : ∀ s ∈ components.map Prod.snd, s.ReadsErased) :
    Reader.Corresponds WireError.Erased (fun vs vs' => vs.map Value.erase = vs')
      (readComponents components) (readComponents (components.map eraseComponent)) := by
  induction components with
  | nil => exact .pure rfl
  | cons component components ih =>
    obtain ⟨step, s⟩ := component
    have head : s.ReadsErased := each s List.mem_cons_self
    have tail := ih fun t ht => each t (List.mem_cons_of_mem _ ht)
    have located : Reader.Corresponds WireError.Erased (fun v v' => v.erase = v')
        (Reader.atStep step s.read) (Reader.atStep step.erase s.erase.read) :=
      head.atStep step
    apply located.bind
    rintro v _ rfl
    apply tail.bind
    rintro vs _ rfl
    exact .pure rfl

/-- What is read as a `whole` has no name in it. -/
theorem readsErased_whole {s : Shape} {α : Type} {r : Reader Fault α} {make : α → Value}
    (whole : s.read = do return make (← Reader.atRoot r)) (unnamed : s.erase = s)
    (plain : ∀ a, (make a).erase = make a) : s.ReadsErased := by
  unfold ReadsErased
  rw [unnamed, whole]
  apply (corresponds_atRoot r).bind
  rintro a _ rfl
  exact .pure (plain a)

/-- **A record or a tuple is read in step** with the tuple of its erased
components (`eraseComponent`). -/
theorem readsErased_composite {s : Shape} {components : List (Step × Shape)} {items : List Shape}
    {make : List Value → Value} (parts : s.read = do return make (← readComponents components))
    (erased : s.erase = .tuple items)
    (unnamed : components.map eraseComponent = itemComponents 0 items)
    (made : ∀ vs, (make vs).erase = .tuple (vs.map Value.erase))
    (each : ∀ t ∈ components.map Prod.snd, t.ReadsErased) : s.ReadsErased := by
  have inside := corresponds_readComponents each
  unfold ReadsErased
  rw [erased, parts, read_tuple, ← unnamed]
  apply inside.bind
  rintro vs _ rfl
  exact .pure (made vs)

/-- Both refuse elements that take no words, and each names its own shape in
`emptyElement`. -/
theorem corresponds_checkElement (s : Shape) :
    Corresponds Fault.Erased Eq s.checkElement s.erase.checkElement := by
  unfold checkElement
  rw [fixedWords_erase]
  split
  · exact .error .emptyElement
  · exact .ok rfl

/-- **A sequence is read in step** with the sequence of erased elements: the
count in front of it is the same, and so is the test that enough words are
left. -/
theorem readsErased_sequence {s : Shape} (element : s.ReadsErased) : s.sequence.ReadsErased := by
  have checked : Reader.Corresponds WireError.Erased Eq (Reader.atRoot (.lift s.checkElement))
      (Reader.atRoot (.lift s.erase.checkElement)) :=
    (Reader.Corresponds.lift (corresponds_checkElement s)).atRoot
  unfold ReadsErased
  rw [erase_sequence, read_sequence, read_sequence]
  apply checked.bind
  rintro _ _ -
  apply (corresponds_atRoot _).bind
  rintro count _ rfl
  apply (corresponds_atRoot _).bind
  rintro _ _ -
  have inside := @corresponds_readComponents (elementComponents s 0 count) (by
    rw [map_snd_elementComponents]
    exact List.forall_mem_replicate.2 (.inr element))
  rw [map_eraseComponent_elementComponents] at inside
  apply inside.bind
  rintro vs _ rfl
  exact .pure (Value.erase_sequence vs)

/-- **Every shape is read in step with its erased shape**, by induction over
it. -/
theorem readsErased (s : Shape) : s.ReadsErased := by
  induction s using inductScalar with
  | scalar s scalar =>
    cases s with
    | unsigned | signed | bool | felt | fixed =>
      exact readsErased_whole rfl rfl fun _ => rfl
    | bytes | record | sequence | tuple => exact scalar.elim
  | bytes => exact readsErased_whole rfl rfl fun _ => rfl
  | record name fields ih =>
    apply readsErased_composite (read_record name fields) (erase_record name fields)
      (map_eraseComponent_fieldComponents 0 fields) Value.erase_record
    rw [map_snd_fieldComponents]
    exact List.forall_mem_map.2 ih
  | sequence s ih => exact readsErased_sequence ih
  | tuple items ih =>
    apply readsErased_composite (read_tuple items) (erase_tuple items)
      (map_eraseComponent_itemComponents 0 items) Value.erase_tuple
    rwa [map_snd_itemComponents]

/-! ## Decoding in step -/

/-- **Bytes are decoded in step**, and the values belong together by
`Value.erase`. -/
theorem corresponds_decode (s : Shape) (bytes : List UInt8) :
    Corresponds WireError.Erased (fun v v' => v.erase = v') (s.decode bytes)
      (s.erase.decode bytes) := by
  have whole : Reader.Corresponds WireError.Erased (fun v v' => v.erase = v')
      (do
        let v ← s.read
        Reader.atRoot .finish
        return v)
      (do
        let v ← s.erase.read
        Reader.atRoot .finish
        return v) := by
    apply s.readsErased.bind
    intro v v' hv
    apply (corresponds_atRoot _).bind
    rintro _ _ -
    exact .pure hv
  exact (whole (.start bytes)).1

variable {s : Shape} {v : Value} {bytes : List UInt8}

theorem decode_erase (h : s.decode bytes = .ok v) : s.erase.decode bytes = .ok v.erase := by
  obtain ⟨v', decoded, rfl⟩ := (s.corresponds_decode bytes).exists_of_ok h
  exact decoded

/-- What is written is what is read (`decode_eq_ok_iff`), so that the law for
reading is one for writing. -/
theorem encodeBytes_erase (h : s.encodeBytes v = .ok bytes) :
    s.erase.encodeBytes v.erase = .ok bytes :=
  decode_eq_ok_iff.1 (decode_erase (decode_eq_ok_iff.2 h))

/-- **Names are not written.** A value is written as its erased value is under
the erased shape (`erase`), and bytes that decode to a value decode to its
erased value. Bytes fail to decode under a shape exactly if they do under the
erased shape, at the same place but for the names of fields, and with the same
fault; only where the elements of a sequence take no words, each fault names its
own shape. -/
theorem names_not_written (s : Shape) :
    (∀ v bytes, s.encodeBytes v = .ok bytes → s.erase.encodeBytes v.erase = .ok bytes) ∧
    (∀ bytes v, s.decode bytes = .ok v → s.erase.decode bytes = .ok v.erase) ∧
    (∀ bytes, (∃ e, s.decode bytes = .error e) ↔ ∃ e, s.erase.decode bytes = .error e) ∧
    ∀ bytes e e', s.decode bytes = .error e → s.erase.decode bytes = .error e' →
      e'.steps = e.steps.map Step.erase ∧
        (e'.fault = e.fault ∨ ∃ element : Shape, e.fault = .mismatch (.emptyElement element) ∧
          e'.fault = .mismatch (.emptyElement element.erase)) := by
  refine ⟨fun v bytes => encodeBytes_erase, fun bytes v => decode_erase,
    fun bytes => (s.corresponds_decode bytes).exists_error_iff, fun bytes e e' failed failed' => ?_⟩
  obtain ⟨steps, fault⟩ := (s.corresponds_decode bytes).of_error failed failed'
  refine ⟨steps, ?_⟩
  generalize e.fault = f, e'.fault = f' at fault
  cases fault with
  | same => exact .inl rfl
  | emptyElement => exact .inr ⟨_, rfl, rfl⟩

/-- Lines that are written and read without their names, and one whose truth
value is none. -/
theorem names_not_written_line :
    let s : Shape := .sequence (.record "Line" [("change", .signed .w8), ("open", .bool)])
    let t : Shape := .sequence (.tuple [.signed .w8, .bool])
    let v : Value := .sequence [.record [.signed (-1), .bool true]]
    let u : Value := .sequence [.tuple [.signed (-1), .bool true]]
    let line := wordBytes [.reduce 1, .ofInt (-1), .reduce 1]
    let wrong := wordBytes [.reduce 1, .ofInt (-1), .reduce 2]
    let e : WireError := ⟨[.element 0, .field 1 "open"], .invalidBoolean (.reduce 2)⟩
    let e' : WireError := ⟨[.element 0, .item 1], .invalidBoolean (.reduce 2)⟩
    s.encodeBytes v = .ok line ∧ t.encodeBytes u = .ok line ∧
      s.decode line = .ok v ∧ t.decode line = .ok u ∧
      s.decode wrong = .error e ∧ t.decode wrong = .error e' := by
  intro s t v u line wrong e e'
  obtain ⟨written, read, fails, errors⟩ := names_not_written s
  have encoded : s.encodeBytes v = .ok line := rfl
  have decoded : s.decode line = .ok v := decode_eq_ok_iff.2 encoded
  -- only the error is evaluated, not the value
  have unit : (s.decode wrong).map (fun _ => ()) = .error e := by decide +kernel
  have failed := map_eq_error_iff.1 unit
  obtain ⟨f, failed'⟩ := (fails wrong).1 ⟨e, failed⟩
  obtain ⟨steps, same | ⟨_, other, -⟩⟩ := errors wrong e f failed failed'
  · obtain rfl : f = e' := by
      cases f
      cases steps
      cases same
      rfl
    exact ⟨encoded, written v line encoded, decoded, read line v decoded, failed, failed'⟩
  · cases other

/-- Elements without words are refused under both shapes, and each names its
own. -/
example : (sequence (.record "Empty" [])).decode [] =
      .error ⟨[], .mismatch (.emptyElement (.record "Empty" []))⟩ ∧
    (sequence (.tuple [])).decode [] = .error ⟨[], .mismatch (.emptyElement (.tuple []))⟩ :=
  ⟨rfl, rfl⟩

end Shape

end FeltWire

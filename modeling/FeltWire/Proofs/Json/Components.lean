import FeltWire.Json.Values
import FeltWire.Proofs.Codec.Components

/-!
# Documents of composite values

The members of an object that a record has fields for, the items of a tuple and
the elements of a sequence are converted in one way, each under its own shape.
What a composite value is read from and shown as is then a statement about its
components and their documents, each on its own.

## Main definitions

* `Shape.Each`: shapes with two further lists, related one by one
* `Shape.convertComponents`: a list of components converted one by one, in
  either direction

## Main results

* `ofJson_record_iff`, `ofJson_sequence_iff`, `ofJson_tuple_iff`: what composite
  values are read from
* `toJson_record_iff`, `toJson_sequence_iff`, `toJson_tuple_iff`: what they are
  shown as
-/

namespace FeltWire.Shape

/-! ## Related lists -/

/-- **Shapes and two further lists, related one by one** by `related`. -/
inductive Each {α β : Type} (related : Shape → α → β → Prop) :
    List Shape → List α → List β → Prop
  | nil : Each related [] [] []
  | cons {s : Shape} {a : α} {b : β} {shapes : List Shape} {as : List α} {bs : List β}
      (head : related s a b) (tail : Each related shapes as bs) :
      Each related (s :: shapes) (a :: as) (b :: bs)

namespace Each

variable {α β : Type} {related : Shape → α → β → Prop} {shapes : List Shape} {as : List α}
  {bs : List β}

theorem length_left (h : Each related shapes as bs) : shapes.length = as.length := by
  induction h with
  | nil => rfl
  | cons head tail ih => rw [List.length_cons, List.length_cons, ih]

theorem length_right (h : Each related shapes as bs) : shapes.length = bs.length := by
  induction h with
  | nil => rfl
  | cons head tail ih => rw [List.length_cons, List.length_cons, ih]

theorem replicate {s : Shape} {a : α} {b : β} (h : related s a b) (count : Nat) :
    Each related (List.replicate count s) (List.replicate count a) (List.replicate count b) := by
  induction count with
  | zero => exact .nil
  | succ count ih => exact .cons h ih

/-- What stands in the last list is `related` with something in the other
two. -/
theorem exists_of_mem (h : Each related shapes as bs) {b : β} (hb : b ∈ bs) :
    ∃ s ∈ shapes, ∃ a ∈ as, related s a b := by
  induction h with
  | nil => cases hb
  | cons head tail ih =>
    rcases List.mem_cons.1 hb with rfl | hb
    · exact ⟨_, List.mem_cons_self, _, List.mem_cons_self, head⟩
    · obtain ⟨s, hs, a, ha, related⟩ := ih hb
      exact ⟨s, List.mem_cons_of_mem _ hs, a, List.mem_cons_of_mem _ ha, related⟩

end Each

/-- The value `v` is read from the document `j`. -/
abbrev ReadFrom (s : Shape) (j : Json) (v : Value) : Prop := s.ofJson j = .ok v

/-- The value `v` is shown as the document `j`. -/
abbrev ShownAs (s : Shape) (v : Value) (j : Json) : Prop := s.toJson v = .ok j

/-! ## Converting components -/

/-- What components are converted to by `convert`, each located at its step.
Fields, items and elements are all converted so, in either direction. -/
def convertComponents {α β : Type} (convert : Shape → α → Except JsonError β) :
    List (Step × Shape) → List α → Except JsonError (List β)
  | (step, s) :: components, a :: as => do
    let b ← atStep step (convert s a)
    let bs ← convertComponents convert components as
    return b :: bs
  | _, _ => .ok []

/-- **Components are converted if each of them is** (`Each`). -/
theorem convertComponents_eq_ok_iff {α β : Type} {convert : Shape → α → Except JsonError β}
    {components : List (Step × Shape)} {as : List α} {bs : List β}
    (size : components.length = as.length) :
    convertComponents convert components as = .ok bs ↔
      Each (fun s a b => convert s a = .ok b) (components.map Prod.snd) as bs := by
  induction components generalizing as bs with
  | nil =>
    obtain rfl : as = [] := List.length_eq_zero_iff.1 size.symm
    constructor
    · rintro ⟨⟩
      exact .nil
    · rintro ⟨⟩
      rfl
  | cons component components ih =>
    obtain ⟨step, s⟩ := component
    rcases as with _ | ⟨a, as⟩
    · cases size
    · simp only [convertComponents, bind_eq_ok_iff, atStep_eq_ok, pure_eq_ok_iff,
        ih (Nat.succ.inj size)]
      constructor
      · rintro ⟨b, head, bs, tail, rfl⟩
        exact .cons head tail
      · rintro (_ | ⟨head, tail⟩)
        exact ⟨_, head, _, tail, rfl⟩

theorem elementsOfJson_eq (s : Shape) (index : Nat) (js : List Json) :
    elementsOfJson s.ofJson index js =
      convertComponents ofJson (elementComponents s index js.length) js := by
  induction js generalizing index with
  | nil => rfl
  | cons j js ih =>
    rw [List.length_cons, elementComponents_succ, elementsOfJson, convertComponents, ih]

theorem itemsOfJson_eq (position : Nat) (items : List Shape) (js : List Json) :
    itemsOfJson position items js =
      convertComponents ofJson (itemComponents position items) js := by
  induction items generalizing position js with
  | nil => cases js <;> rfl
  | cons s items ih =>
    rw [itemComponents_cons]
    cases js with
    | nil => rfl
    | cons j js => rw [itemsOfJson, convertComponents, ih]

theorem elementsToJson_eq (s : Shape) (index : Nat) (vs : List Value) :
    elementsToJson s.toJson index vs =
      convertComponents toJson (elementComponents s index vs.length) vs := by
  induction vs generalizing index with
  | nil => rfl
  | cons v vs ih =>
    rw [List.length_cons, elementComponents_succ, elementsToJson, convertComponents, ih]

theorem itemsToJson_eq (position : Nat) (items : List Shape) (vs : List Value) :
    itemsToJson position items vs =
      convertComponents toJson (itemComponents position items) vs := by
  induction items generalizing position vs with
  | nil => cases vs <;> rfl
  | cons s items ih =>
    rw [itemComponents_cons]
    cases vs with
    | nil => rfl
    | cons v vs => rw [itemsToJson, convertComponents, ih]

/-- The members that fields give are the documents of the fields, under their
names; `convertComponents` gives the documents. -/
theorem fieldsToJson_eq (position : Nat) (fields : List (String × Shape)) (vs : List Value) :
    fieldsToJson position fields vs =
      (convertComponents toJson (fieldComponents position fields) vs).map
        ((fields.map Prod.fst).zip ·) := by
  induction fields generalizing position vs with
  | nil => cases vs <;> rfl
  | cons f fields ih =>
    obtain ⟨name, s⟩ := f
    rw [fieldComponents_cons]
    cases vs with
    | nil => rfl
    | cons v vs =>
      rw [fieldsToJson, convertComponents, ih]
      cases atStep (.field position name) (s.toJson v) with
      | error e => rfl
      | ok j =>
        cases convertComponents toJson (fieldComponents (position + 1) fields) vs <;> rfl

/-! ## Composite values from documents -/

theorem fieldsOfJson_eq_ok_iff {position : Nat} {fields : List (String × Shape)}
    {members : Dictionary Json} {vs : List Value} :
    fieldsOfJson position fields members = .ok vs ↔
      ∃ js, fields.map (fun f => Dictionary.get? f.1 members) = js.map some ∧
        Each ReadFrom (fields.map Prod.snd) js vs := by
  induction fields generalizing position vs with
  | nil =>
    constructor
    · rintro ⟨⟩
      exact ⟨[], rfl, .nil⟩
    · rintro ⟨_, -, ⟨⟩⟩
      rfl
  | cons f fields ih =>
    obtain ⟨name, s⟩ := f
    rw [fieldsOfJson]
    cases found : Dictionary.get? name members with
    | none =>
      constructor
      · rintro ⟨⟩
      · rintro ⟨_ | ⟨j, js⟩, keys, each⟩
        · cases keys
        · simp [found] at keys
    | some j =>
      simp only [bind_eq_ok_iff, atStep_eq_ok, pure_eq_ok_iff, ih]
      constructor
      · rintro ⟨v, head, _, ⟨js, keys, tail⟩, rfl⟩
        exact ⟨j :: js, by rw [List.map_cons, found, keys, List.map_cons], .cons head tail⟩
      · rintro ⟨_, keys, _ | ⟨head, tail⟩⟩
        obtain ⟨same, others⟩ := List.cons.inj keys
        cases found.symm.trans same
        exact ⟨_, head, _, ⟨_, others, tail⟩, rfl⟩

theorem elementsOfJson_eq_ok_iff {s : Shape} {index : Nat} {js : List Json} {vs : List Value} :
    elementsOfJson s.ofJson index js = .ok vs ↔
      Each ReadFrom (List.replicate js.length s) js vs := by
  rw [elementsOfJson_eq, convertComponents_eq_ok_iff (by simp [elementComponents]),
    map_snd_elementComponents]

theorem itemsOfJson_eq_ok_iff {position : Nat} {items : List Shape} {js : List Json}
    {vs : List Value} (size : js.length = items.length) :
    itemsOfJson position items js = .ok vs ↔ Each ReadFrom items js vs := by
  rw [itemsOfJson_eq, convertComponents_eq_ok_iff (by simp [itemComponents, size]),
    map_snd_itemComponents]

/-- **A record** is read from an object that has a member for each of its
fields. Without a member for one there is no list of documents either. -/
theorem ofJson_record_iff {name : String} {fields : List (String × Shape)} {j : Json} {v : Value} :
    (record name fields).ofJson j = .ok v ↔
      ∃ members js vs, j = .object members ∧ v = .record vs ∧
        fields.map (fun f => Dictionary.get? f.1 members) = js.map some ∧
        Each ReadFrom (fields.map Prod.snd) js vs := by
  cases j with
  | object members =>
    simp only [ofJson, map_eq_ok_iff, fieldsOfJson_eq_ok_iff]
    constructor
    · rintro ⟨vs, ⟨js, keys, each⟩, rfl⟩
      exact ⟨members, js, vs, rfl, rfl, keys, each⟩
    · rintro ⟨_, js, vs, ⟨⟩, rfl, keys, each⟩
      exact ⟨vs, ⟨js, keys, each⟩, rfl⟩
  | _ => simp [ofJson, Json.unexpected]

/-- **A sequence** is read from an array of documents of its elements, as many
copies of `s` as there are. -/
theorem ofJson_sequence_iff {s : Shape} {j : Json} {v : Value} :
    s.sequence.ofJson j = .ok v ↔
      ∃ js vs, j = .array js ∧ v = .sequence vs ∧
        Each ReadFrom (List.replicate js.length s) js vs := by
  cases j with
  | array js =>
    simp only [ofJson, map_eq_ok_iff, elementsOfJson_eq_ok_iff]
    constructor
    · rintro ⟨vs, each, rfl⟩
      exact ⟨js, vs, rfl, rfl, each⟩
    · rintro ⟨_, vs, ⟨⟩, rfl, each⟩
      exact ⟨vs, each, rfl⟩
  | _ => simp [ofJson, Json.unexpected]

/-- **A tuple** is read from an array of documents of its `items`. -/
theorem ofJson_tuple_iff {items : List Shape} {j : Json} {v : Value} :
    (tuple items).ofJson j = .ok v ↔
      ∃ js vs, j = .array js ∧ v = .tuple vs ∧ Each ReadFrom items js vs := by
  cases j with
  | array js =>
    rw [ofJson]
    split
    · next size =>
      simp only [map_eq_ok_iff, itemsOfJson_eq_ok_iff size]
      constructor
      · rintro ⟨vs, each, rfl⟩
        exact ⟨js, vs, rfl, rfl, each⟩
      · rintro ⟨_, vs, ⟨⟩, rfl, each⟩
        exact ⟨vs, each, rfl⟩
    · next size =>
      constructor
      · rintro ⟨⟩
      · rintro ⟨_, vs, ⟨⟩, rfl, each⟩
        exact absurd each.length_left.symm size
  | _ => simp [ofJson, Json.unexpected]

/-! ## Documents of composite values -/

theorem elementsToJson_eq_ok_iff {s : Shape} {index : Nat} {vs : List Value} {js : List Json} :
    elementsToJson s.toJson index vs = .ok js ↔
      Each ShownAs (List.replicate vs.length s) vs js := by
  rw [elementsToJson_eq, convertComponents_eq_ok_iff (by simp [elementComponents]),
    map_snd_elementComponents]

theorem itemsToJson_eq_ok_iff {position : Nat} {items : List Shape} {vs : List Value}
    {js : List Json} (size : items.length = vs.length) :
    itemsToJson position items vs = .ok js ↔ Each ShownAs items vs js := by
  rw [itemsToJson_eq, convertComponents_eq_ok_iff (by simp [itemComponents, size]),
    map_snd_itemComponents]

theorem fieldsToJson_eq_ok_iff {position : Nat} {fields : List (String × Shape)} {vs : List Value}
    {members : List (String × Json)} (size : fields.length = vs.length) :
    fieldsToJson position fields vs = .ok members ↔
      ∃ js, Each ShownAs (fields.map Prod.snd) vs js ∧ (fields.map Prod.fst).zip js = members := by
  rw [fieldsToJson_eq, map_eq_ok_iff]
  simp only [convertComponents_eq_ok_iff
    (show (fieldComponents position fields).length = vs.length by simpa [fieldComponents]),
    map_snd_fieldComponents]

/-- **A record** is shown as an object with a member for each of its fields, in
the order of `Dictionary.ofList`. -/
theorem toJson_record_iff {name : String} {fields : List (String × Shape)} {v : Value} {j : Json} :
    (record name fields).toJson v = .ok j ↔
      ∃ vs js, v = .record vs ∧ j = .object (Dictionary.ofList ((fields.map Prod.fst).zip js)) ∧
        Each ShownAs (fields.map Prod.snd) vs js := by
  cases v with
  | record vs =>
    rw [toJson]
    split
    · next size =>
      simp only [bind_eq_ok_iff, pure_eq_ok_iff, fieldsToJson_eq_ok_iff size]
      constructor
      · rintro ⟨_, ⟨js, each, rfl⟩, rfl⟩
        exact ⟨vs, js, rfl, rfl, each⟩
      · rintro ⟨_, js, ⟨⟩, rfl, each⟩
        exact ⟨_, ⟨js, each, rfl⟩, rfl⟩
    · next size =>
      constructor
      · rintro ⟨⟩
      · rintro ⟨_, js, ⟨⟩, rfl, each⟩
        exact absurd (by simpa using each.length_left) size
  | _ => simp [toJson, unexpectedValue]

/-- **A sequence** is shown as the array of its elements, as many copies of `s`
as there are. -/
theorem toJson_sequence_iff {s : Shape} {v : Value} {j : Json} :
    s.sequence.toJson v = .ok j ↔
      ∃ vs js, v = .sequence vs ∧ j = .array js ∧
        Each ShownAs (List.replicate vs.length s) vs js := by
  cases v with
  | sequence vs =>
    simp only [toJson, map_eq_ok_iff, elementsToJson_eq_ok_iff]
    constructor
    · rintro ⟨js, each, rfl⟩
      exact ⟨vs, js, rfl, rfl, each⟩
    · rintro ⟨_, js, ⟨⟩, rfl, each⟩
      exact ⟨js, each, rfl⟩
  | _ => simp [toJson, unexpectedValue]

/-- **A tuple** is shown as the array of its `items`. -/
theorem toJson_tuple_iff {items : List Shape} {v : Value} {j : Json} :
    (tuple items).toJson v = .ok j ↔
      ∃ vs js, v = .tuple vs ∧ j = .array js ∧ Each ShownAs items vs js := by
  cases v with
  | tuple vs =>
    rw [toJson]
    split
    · next size =>
      simp only [map_eq_ok_iff, itemsToJson_eq_ok_iff size]
      constructor
      · rintro ⟨js, each, rfl⟩
        exact ⟨vs, js, rfl, rfl, each⟩
      · rintro ⟨_, js, ⟨⟩, rfl, each⟩
        exact ⟨js, each, rfl⟩
    · next size =>
      constructor
      · rintro ⟨⟩
      · rintro ⟨_, js, ⟨⟩, rfl, each⟩
        exact absurd each.length_left size
  | _ => simp [toJson, unexpectedValue]

end FeltWire.Shape

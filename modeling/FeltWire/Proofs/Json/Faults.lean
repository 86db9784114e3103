import FeltWire.Proofs.Codec.Scalars
import FeltWire.Proofs.Json.Components
import FeltWire.Proofs.Json.Paths

/-!
# Conversion faults are where they are said to be

The error of a document that does not convert leads to the part of it that is at
fault. Its steps are followed from the outside in, through a field of a record,
an item of a tuple or an element of a sequence at a time, and each is the first
of its neighbours that does not convert. What they end at is refused for itself:
it is of another kind than its shape asks for, an object without a member that a
field asks for, an array of another length, or a scalar out of range.

A member that is missing belongs to its object, and so its fault is one of the
object. A length is tested before the items are looked at, so that a fault of
the length is one of the whole array, even if its items would not convert
either.

## Main definitions

* `Shape.ConvertedBefore`: the components in front of a place are there and
  convert
* `Shape.LeadsInto`: steps lead from a shape and a document to a part of the
  document
* `Shape.Refuses`: a document is refused for itself, and not for a part of it

## Main results

* `convertAllFound_eq_error`: which component of a list fails
* `refusal_within`: from the component that fails to the whole
* `refusal_of_ofJson`: every error leads to a refusal
* `conversion_fault_located`: where an error of a conversion leads
-/

namespace FeltWire

/-- The member of an object that a field of the given `name` asks for, or the
fault that it is missing. -/
def Json.member (members : Dictionary Json) (name : String) : Except JsonFault Json :=
  match Dictionary.get? name members with
  | some j => .ok j
  | none => .error (.missingField name)

theorem Json.member_eq_ok_iff {members : Dictionary Json} {name : String} {j : Json} :
    Json.member members name = .ok j ↔ Dictionary.get? name members = some j := by
  unfold Json.member
  cases Dictionary.get? name members <;> simp

theorem Json.member_eq_error_iff {members : Dictionary Json} {name : String} {fault : JsonFault} :
    Json.member members name = .error fault ↔
      Dictionary.get? name members = none ∧ .missingField name = fault := by
  unfold Json.member
  cases Dictionary.get? name members <;> simp

namespace Shape

/-! ## The way to a part -/

/-- The components in front of the place `i` have documents, and these
convert. -/
def ConvertedBefore (shapes : List Shape) (documents : List (Except JsonFault Json)) (i : Nat) :
    Prop :=
  ∀ k < i, ∃ s j v, shapes[k]? = some s ∧ documents[k]? = some (.ok j) ∧ s.ofJson j = .ok v

/-- **Steps lead to a part of a document**, and are written as a path. At each
of them, the components in front of the one that is named are there and convert
(`ConvertedBefore`). -/
inductive LeadsInto : Shape → Json → List Step → String → Shape → Json → Prop
  /-- No step leads away. -/
  | here {s : Shape} {j : Json} : LeadsInto s j [] "" s j
  /-- Through the `field` of a record that has the position `i`, and the name
  that stands in the step. -/
  | field {name : String} {fields : List (String × Shape)} {members : Dictionary Json} {i : Nat}
      {field : String × Shape} {j : Json} {steps : List Step} {path : String} {t : Shape} {k : Json}
      (shape : fields[i]? = some field) (found : Dictionary.get? field.1 members = some j)
      (before : ConvertedBefore (fields.map Prod.snd)
        (fields.map fun f => Json.member members f.1) i)
      (rest : LeadsInto field.2 j steps path t k) :
      LeadsInto (.record name fields) (.object members) (.field i field.1 :: steps)
        ("." ++ field.1 ++ path) t k
  /-- Through the item of a tuple that has the position `i`. -/
  | item {items : List Shape} {js : List Json} {i : Nat} {s : Shape} {j : Json} {steps : List Step}
      {path : String} {t : Shape} {k : Json} (shape : items[i]? = some s)
      (found : js[i]? = some j) (before : ConvertedBefore items (js.map .ok) i)
      (rest : LeadsInto s j steps path t k) :
      LeadsInto (.tuple items) (.array js) (.item i :: steps) ("." ++ toString i ++ path) t k
  /-- Through the element of a sequence that has the index `i`. -/
  | element {s : Shape} {js : List Json} {i : Nat} {j : Json} {steps : List Step} {path : String}
      {t : Shape} {k : Json} (found : js[i]? = some j)
      (before : ConvertedBefore (List.replicate js.length s) (js.map .ok) i)
      (rest : LeadsInto s j steps path t k) :
      LeadsInto (.sequence s) (.array js) (.element i :: steps) ("[" ++ toString i ++ "]" ++ path)
        t k

/-! ## Which component fails -/

/-- A component with its `document`, or the fault that it has none, which is one
of the whole. -/
def convertFound (component : Step × Shape) (document : Except JsonFault Json) :
    Except JsonError Value := do
  let j ← atRoot document
  atStep component.1 (component.2.ofJson j)

/-- Components one by one, each with its document, by `convertFound`. -/
def convertAllFound :
    List (Step × Shape) → List (Except JsonFault Json) → Except JsonError (List Value)
  | component :: components, document :: documents => do
    let v ← convertFound component document
    let vs ← convertAllFound components documents
    return v :: vs
  | _, _ => .ok []

theorem fieldsOfJson_eq (position : Nat) (fields : List (String × Shape))
    (members : Dictionary Json) : fieldsOfJson position fields members =
      convertAllFound (fieldComponents position fields)
        (fields.map fun f => Json.member members f.1) := by
  induction fields generalizing position with
  | nil => rfl
  | cons f fields ih =>
    obtain ⟨name, s⟩ := f
    rw [fieldComponents_cons, List.map_cons, fieldsOfJson, convertAllFound, convertFound,
      Json.member, ih]
    cases Dictionary.get? name members <;> rfl

theorem convertComponents_eq (components : List (Step × Shape)) (js : List Json) :
    convertComponents ofJson components js = convertAllFound components (js.map .ok) := by
  induction components generalizing js with
  | nil => cases js <;> rfl
  | cons component components ih =>
    cases js with
    | nil => rfl
    | cons j js =>
      rw [List.map_cons, convertComponents, convertAllFound, ih]
      rfl

/-- **The component that fails** is the first that does; those in front of it
are `ConvertedBefore`. -/
theorem convertAllFound_eq_error {components : List (Step × Shape)}
    {documents : List (Except JsonFault Json)} {e : JsonError}
    (h : convertAllFound components documents = .error e) :
    ∃ i component document, components[i]? = some component ∧ documents[i]? = some document ∧
      convertFound component document = .error e ∧
      ConvertedBefore (components.map Prod.snd) documents i := by
  induction components generalizing documents with
  | nil => cases h
  | cons component components ih =>
    cases documents with
    | nil => cases h
    | cons document documents =>
      rw [convertAllFound] at h
      rcases bind_eq_error_iff.1 h with first | ⟨v, converted, later⟩
      · exact ⟨0, component, document, rfl, rfl, first, fun k hk => absurd hk k.not_lt_zero⟩
      · rcases bind_eq_error_iff.1 later with tail | ⟨_, _, done⟩
        · obtain ⟨i, next, document', at_i, found, failed, before⟩ := ih tail
          obtain ⟨j, there, value⟩ := bind_eq_ok_iff.1 converted
          refine ⟨i + 1, next, document', at_i, found, failed, ?_⟩
          rintro (_ | k) hk
          · exact ⟨component.2, j, v, rfl, congrArg some (atRoot_eq_ok.1 there),
              atStep_eq_ok.1 value⟩
          · exact before k (Nat.lt_of_succ_lt_succ hk)
        · cases done

/-! ## Refusals -/

/-- No part of a value has a shape of its own; unlike `IsScalar` this includes
`bytes`. -/
def IsLeaf : Shape → Prop
  | .record .. | .sequence _ | .tuple _ => False
  | _ => True

/-- **A document is refused for itself**, and not for a part of it. -/
inductive Refuses : Shape → Json → JsonFault → Prop
  /-- A leaf has no parts. -/
  | leaf {s : Shape} {j : Json} {fault : JsonFault} (leaf : s.IsLeaf)
      (refused : s.ofJson j = .error (.here fault)) : Refuses s j fault
  /-- A record is read from an object. -/
  | record {name : String} {fields : List (String × Shape)} {j : Json}
      (kind : ∀ members, j ≠ .object members) :
      Refuses (.record name fields) j (.unexpected (.record name) j.kind)
  /-- The object has no member for a `field`, and those for the fields in front
  of it convert. -/
  | missing {name : String} {fields : List (String × Shape)} {members : Dictionary Json} {i : Nat}
      {field : String × Shape} (shape : fields[i]? = some field)
      (absent : Dictionary.get? field.1 members = none)
      (before : ConvertedBefore (fields.map Prod.snd)
        (fields.map fun f => Json.member members f.1) i) :
      Refuses (.record name fields) (.object members) (.missingField field.1)
  /-- A sequence is read from an array. -/
  | sequence {s : Shape} {j : Json} (kind : ∀ js, j ≠ .array js) :
      Refuses (.sequence s) j (.unexpected (.shape (.sequence s)) j.kind)
  /-- A tuple is read from an array of as many items. -/
  | tuple {items : List Shape} {j : Json} (kind : ∀ js, j = .array js → js.length ≠ items.length) :
      Refuses (.tuple items) j (.unexpected (.shape (.tuple items)) j.kind)

/-- **An error leads to a refusal**: its steps lead to a part that is refused
for itself, with this fault (`Refuses`). -/
def LeadsToRefusal (s : Shape) (j : Json) (e : JsonError) : Prop :=
  ∃ t k, LeadsInto s j e.steps (Located.path e) t k ∧ t.ofJson k = .error (.here e.fault) ∧
    t.Refuses k e.fault

/-- A fault of the document itself is where the way starts, with no step. -/
theorem refusal_here {s : Shape} {j : Json} {fault : JsonFault} {e : JsonError}
    (h : s.ofJson j = .error e) (root : .here fault = e) (refused : s.Refuses j fault) :
    s.LeadsToRefusal j e := by
  subst root
  exact ⟨s, j, .here, h, refused⟩

/-- **From the component that fails to the whole**, if there is a step from the
whole to each of its components (`step`). A component without a document is a
fault of the whole (`absent`). -/
theorem refusal_within {s : Shape} {j : Json} {components : List (Step × Shape)}
    {shapes : List Shape} {documents : List (Except JsonFault Json)} {e : JsonError}
    (hc : components.map Prod.snd = shapes) (h : s.ofJson j = .error e)
    (parts : convertAllFound components documents = .error e)
    (each : ∀ c ∈ shapes, ∀ k inner, c.ofJson k = .error inner → c.LeadsToRefusal k inner)
    (absent : ∀ i component fault, components[i]? = some component →
      documents[i]? = some (.error fault) → ConvertedBefore shapes documents i →
      s.Refuses j fault)
    (step : ∀ i component k steps path t u, components[i]? = some component →
      documents[i]? = some (.ok k) → ConvertedBefore shapes documents i →
      LeadsInto component.2 k steps path t u →
      LeadsInto s j (component.1 :: steps) (component.1.text ++ path) t u) :
    s.LeadsToRefusal j e := by
  subst hc
  obtain ⟨i, component, document, at_i, found, failed, before⟩ := convertAllFound_eq_error parts
  rcases bind_eq_error_iff.1 failed with none | ⟨k, there, inside⟩
  · obtain ⟨fault, rfl, root⟩ := atRoot_eq_error.1 none
    exact refusal_here h root (absent i component fault at_i found before)
  · obtain rfl := atRoot_eq_ok.1 there
    obtain ⟨inner, refused, rfl⟩ := atStep_eq_error.1 inside
    have mem := List.mem_map_of_mem (f := Prod.snd) (List.mem_of_getElem? at_i)
    obtain ⟨t, u, way, alone⟩ := each component.2 mem k inner refused
    refine ⟨t, u, ?_, alone⟩
    rw [Located.path_within]
    exact step i component k _ _ t u at_i found before way

/-- A leaf has nothing below it that a fault could be at, so that `Refuses.leaf`
applies. -/
theorem refusal_leaf {s : Shape} {j : Json} {e : JsonError} {x : Except JsonFault Value}
    (leaf : s.IsLeaf) (root : s.ofJson j = atRoot x) (h : s.ofJson j = .error e) :
    s.LeadsToRefusal j e := by
  obtain ⟨fault, -, rfl⟩ := atRoot_eq_error.1 (root.symm.trans h)
  exact refusal_here h rfl (.leaf leaf h)

theorem refusal_record {name : String} {fields : List (String × Shape)} {j : Json} {e : JsonError}
    (h : (record name fields).ofJson j = .error e)
    (each : ∀ f ∈ fields, ∀ k inner, f.2.ofJson k = .error inner → f.2.LeadsToRefusal k inner) :
    (record name fields).LeadsToRefusal j e := by
  cases j with
  | object members =>
    have parts := map_eq_error_iff.1 ((congrArg _ (fieldsOfJson_eq 0 fields members)).symm.trans h)
    apply refusal_within (map_snd_fieldComponents 0 fields) h parts (List.forall_mem_map.2 each)
    · intro i component fault at_i found before
      obtain ⟨field, shape, rfl⟩ := getElem?_fieldComponents.1 at_i
      rw [List.getElem?_map, shape] at found
      obtain ⟨absent, rfl⟩ := Json.member_eq_error_iff.1 (Option.some.inj found)
      exact .missing shape absent before
    · intro i component k steps path t u at_i found before way
      obtain ⟨field, shape, rfl⟩ := getElem?_fieldComponents.1 at_i
      rw [List.getElem?_map, shape] at found
      exact .field shape (Json.member_eq_ok_iff.1 (Option.some.inj found)) before way
  | _ => exact refusal_here h (Except.error.inj h) (.record nofun)

/-- The documents of the items of an array are all there. -/
theorem getElem?_map_ok_iff {js : List Json} {i : Nat} {document : Except JsonFault Json} :
    (js.map .ok)[i]? = some document ↔ ∃ j, js[i]? = some j ∧ .ok j = document := by
  rw [List.getElem?_map, Option.map_eq_some_iff]

theorem refusal_sequence {s : Shape} {j : Json} {e : JsonError}
    (h : s.sequence.ofJson j = .error e)
    (element : ∀ k inner, s.ofJson k = .error inner → s.LeadsToRefusal k inner) :
    s.sequence.LeadsToRefusal j e := by
  cases j with
  | array js =>
    have parts := map_eq_error_iff.1 h
    rw [elementsOfJson_eq, convertComponents_eq] at parts
    have each : ∀ c ∈ List.replicate js.length s, ∀ k inner, c.ofJson k = .error inner →
        c.LeadsToRefusal k inner := by
      intro c hc
      rw [List.eq_of_mem_replicate hc]
      exact element
    apply refusal_within (map_snd_elementComponents s 0 js.length) h parts each
    · intro i component fault at_i found before
      obtain ⟨_, -, ⟨⟩⟩ := getElem?_map_ok_iff.1 found
    · intro i component k steps path t u at_i found before way
      obtain ⟨-, rfl⟩ := getElem?_elementComponents.1 at_i
      obtain ⟨_, there, ⟨⟩⟩ := getElem?_map_ok_iff.1 found
      exact .element there before way
  | _ => exact refusal_here h (Except.error.inj h) (.sequence nofun)

theorem refusal_tuple {items : List Shape} {j : Json} {e : JsonError}
    (h : (tuple items).ofJson j = .error e)
    (each : ∀ s ∈ items, ∀ k inner, s.ofJson k = .error inner → s.LeadsToRefusal k inner) :
    (tuple items).LeadsToRefusal j e := by
  cases j with
  | array js =>
    have checked := h
    rw [ofJson] at checked
    split at checked
    · have parts := map_eq_error_iff.1 checked
      rw [itemsOfJson_eq, convertComponents_eq] at parts
      apply refusal_within (map_snd_itemComponents 0 items) h parts each
      · intro i component fault at_i found before
        obtain ⟨_, -, ⟨⟩⟩ := getElem?_map_ok_iff.1 found
      · intro i component k steps path t u at_i found before way
        obtain ⟨item, shape, rfl⟩ := getElem?_itemComponents.1 at_i
        obtain ⟨_, there, ⟨⟩⟩ := getElem?_map_ok_iff.1 found
        exact .item shape there before way
    · next arity =>
      apply refusal_here h (Except.error.inj checked)
      apply Refuses.tuple
      rintro _ ⟨⟩
      exact arity
  | _ =>
    apply refusal_here h (Except.error.inj h)
    apply Refuses.tuple
    rintro _ ⟨⟩

/-- **Every error leads to a refusal**, by induction over the shape. For a
tuple, the length of the array is looked at before any of its items. -/
theorem refusal_of_ofJson {s : Shape} {j : Json} {e : JsonError} (h : s.ofJson j = .error e) :
    s.LeadsToRefusal j e := by
  induction s using induct generalizing j e with
  | unsigned | signed | bool | felt | fixed | bytes => exact refusal_leaf trivial rfl h
  | record name fields ih => exact refusal_record h fun f hf k inner failed => ih f hf failed
  | sequence s ih => exact refusal_sequence h fun k inner failed => ih failed
  | tuple items ih => exact refusal_tuple h fun s hs k inner failed => ih s hs failed

/-- **Conversion faults are where they are said to be.** The steps of an error
lead to a part of the document that fails by itself with the same fault at the
root, and is refused for itself (`Refuses`). The path of the error is these
steps in writing, and it is the path that the part is given if paths are handed
down (`ofJsonAt`). At each step, the components in front of the one that is
named are there and convert. -/
theorem conversion_fault_located {s : Shape} {j : Json} {e : JsonError}
    (h : s.ofJson j = .error e) :
    s.ofJsonAt "$" j = .error (JsonError.path e, e.fault) ∧
    ∃ path t k, LeadsInto s j e.steps path t k ∧ JsonError.path e = "$" ++ path ∧
      t.ofJson k = .error ⟨[], e.fault⟩ ∧ t.ofJsonAt "$" k = .error ("$", e.fault) ∧
      t.Refuses k e.fault := by
  obtain ⟨t, k, way, alone, refused⟩ := refusal_of_ofJson h
  refine ⟨?_, Located.path e, t, k, way, rfl, alone, ?_, refused⟩
  · rw [ofJsonAt_eq, h]
    rfl
  · rw [ofJsonAt_eq, alone]
    exact congrArg Except.error (traced_here "$" e.fault)

/-- A record with a flag that is a number, and a pair whose second record lacks
a member. -/
theorem conversion_fault_located_flags :
    let s : Shape := .record "Sample" [("id", .unsigned .w32), ("flags", .sequence .bool)]
    let kind : JsonFault := .unexpected (.shape .bool) "number"
    let j : Json := .object [("flags", .array [.bool true, .number (.integer 2)]),
      ("id", .string "1")]
    let whole : Json := .object [("flags", .array []), ("id", .number (.integer 7))]
    let lacking : Json := .object [("id", .number (.integer 1))]
    (s.ofJson j = .error ⟨[.field 1 "flags", .element 1], kind⟩ ∧
      s.ofJsonAt "$" j = .error ("$.flags[1]", kind) ∧
      ∃ path t k, LeadsInto s j [.field 1 "flags", .element 1] path t k ∧
        "$.flags[1]" = "$" ++ path ∧ t.Refuses k kind) ∧
    (tuple [s, s]).ofJson (.array [whole, lacking]) = .error ⟨[.item 1], .missingField "flags"⟩ ∧
      ∃ path t k, LeadsInto (tuple [s, s]) (.array [whole, lacking]) [.item 1] path t k ∧
        "$.1" = "$" ++ path ∧ t.Refuses k (.missingField "flags") := by
  intro s kind j whole lacking
  have failed : s.ofJson j = .error ⟨[.field 1 "flags", .element 1], kind⟩ := rfl
  have failed' : (tuple [s, s]).ofJson (.array [whole, lacking]) =
      .error ⟨[.item 1], .missingField "flags"⟩ := rfl
  obtain ⟨traced, path, t, k, way, text, -, -, refused⟩ := conversion_fault_located failed
  obtain ⟨-, path', t', k', way', text', -, -, refused'⟩ := conversion_fault_located failed'
  have written : JsonError.path ⟨[.field 1 "flags", .element 1], kind⟩ = "$.flags[1]" := by decide
  have written' : JsonError.path ⟨[.item 1], .missingField "flags"⟩ = "$.1" := by decide
  rw [written] at traced text
  rw [written'] at text'
  exact ⟨⟨failed, traced, path, t, k, way, text, refused⟩, failed', path', t', k', way', text',
    refused'⟩

end Shape

end FeltWire

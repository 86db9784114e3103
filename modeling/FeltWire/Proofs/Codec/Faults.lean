import FeltWire.Proofs.Codec.Components
import FeltWire.Proofs.Codec.Scalars

/-!
# Faults are where they are said to be

The error of a value that cannot be encoded leads to the component at fault. Its
steps are followed from the outside in, through a field of a record, an item of
a tuple or an element of a sequence at a time, and each is the first of its
neighbours that cannot be encoded. What they end at fails by itself, with the
same fault and without any further step.

## Why the steps end where the fault is

Steps are put in front of an error while it is passed outwards, so that the last
one to be put there is the first one to be followed. A record, a tuple or a
sequence has faults of its own, a number of components or a kind of elements
that it cannot have. They are found before any component is looked at and get no
step, and then the way is already at its end.

## Main definitions

* `Shape.EncodedBefore`: the components in front of a place are encoded
* `Shape.LeadsTo`: steps lead from a shape and a value to a component, and are
  written as a path
* `Shape.Pinpoints`: an error leads to a component that fails by itself

## Main results

* `encodeComponents_eq_error`: which component of a list fails
* `pinpoints_within`: from the component that fails to the whole
* `pinpoints_record`, `pinpoints_sequence`, `pinpoints_tuple`,
  `pinpoints_of_encode`: every error pinpoints its fault, by kinds and for all
  shapes
* `fault_located`: where an error leads that encoding gives
-/

namespace FeltWire.Shape

/-! ## The way to a component -/

/-- The components in front of the place `i` are encoded, each on its own. -/
def EncodedBefore (shapes : List Shape) (vs : List Value) (i : Nat) : Prop :=
  ∀ j < i, ∃ s v bytes, shapes[j]? = some s ∧ vs[j]? = some v ∧ s.encodeBytes v = .ok bytes

/-- **Steps lead to a component**, and are written as a path. At each of
them, the components in front of the one that is named are encoded
(`EncodedBefore`). -/
inductive LeadsTo : Shape → Value → List Step → String → Shape → Value → Prop
  /-- No step leads away. -/
  | here {s : Shape} {v : Value} : LeadsTo s v [] "" s v
  /-- Through the `field` of a record that has the position `i`, and the name
  that stands in the step. -/
  | field {name : String} {fields : List (String × Shape)} {vs : List Value} {i : Nat}
      {field : String × Shape} {v : Value} {steps : List Step} {path : String} {t : Shape}
      {u : Value} (shape : fields[i]? = some field) (value : vs[i]? = some v)
      (before : EncodedBefore (fields.map Prod.snd) vs i)
      (rest : LeadsTo field.2 v steps path t u) :
      LeadsTo (.record name fields) (.record vs) (.field i field.1 :: steps)
        ("." ++ field.1 ++ path) t u
  /-- Through the item of a tuple that has the position `i`. -/
  | item {items : List Shape} {vs : List Value} {i : Nat} {s : Shape} {v : Value}
      {steps : List Step} {path : String} {t : Shape} {u : Value} (shape : items[i]? = some s)
      (value : vs[i]? = some v) (before : EncodedBefore items vs i)
      (rest : LeadsTo s v steps path t u) :
      LeadsTo (.tuple items) (.tuple vs) (.item i :: steps) ("." ++ toString i ++ path) t u
  /-- Through the element of a sequence that has the index `i`. -/
  | element {s : Shape} {vs : List Value} {i : Nat} {v : Value} {steps : List Step}
      {path : String} {t : Shape} {u : Value} (value : vs[i]? = some v)
      (before : EncodedBefore (List.replicate vs.length s) vs i)
      (rest : LeadsTo s v steps path t u) :
      LeadsTo (.sequence s) (.sequence vs) (.element i :: steps)
        ("[" ++ toString i ++ "]" ++ path) t u

/-- **The component that fails** is the first that does, and its error gets its
step. Those in front of it are `EncodedBefore`. -/
theorem encodeComponents_eq_error {components : List (Step × Shape)} {vs : List Value}
    {e : WireError} (h : encodeComponents components vs = .error e) :
    ∃ i component v inner, components[i]? = some component ∧ vs[i]? = some v ∧
      component.2.encode v = .error inner ∧ e = inner.within component.1 ∧
      EncodedBefore (components.map Prod.snd) vs i := by
  induction components generalizing vs e with
  | nil => cases h
  | cons component components ih =>
    obtain ⟨step, s⟩ := component
    cases vs with
    | nil => cases h
    | cons v vs =>
      rw [encodeComponents] at h
      rcases bind_eq_error_iff.1 h with first | ⟨head, written, later⟩
      · obtain ⟨inner, failed, rfl⟩ := atStep_eq_error.1 first
        exact ⟨0, (step, s), v, inner, rfl, rfl, failed, rfl, fun j hj => absurd hj j.not_lt_zero⟩
      · rcases bind_eq_error_iff.1 later with tail | ⟨_, _, done⟩
        · obtain ⟨i, component, u, inner, at_i, value, failed, located, before⟩ := ih tail
          have encoded := encodeBytes_eq_ok_iff.2 ⟨head, atStep_eq_ok.1 written, rfl⟩
          refine ⟨i + 1, component, u, inner, at_i, value, failed, located, ?_⟩
          rintro (_ | j) hj
          · exact ⟨s, v, _, rfl, rfl, encoded⟩
          · exact before j (Nat.lt_of_succ_lt_succ hj)
        · cases done

/-! ## The way to a fault -/

/-- **An error pinpoints its fault**: it `LeadsTo` a component that fails by
itself with this fault. -/
def Pinpoints (s : Shape) (v : Value) (e : WireError) : Prop :=
  ∃ t u, LeadsTo s v e.steps e.path t u ∧ t.encode u = .error (.here e.fault)

/-- A fault of the value itself is where the way starts, with no step. -/
theorem pinpoints_here {s : Shape} {v : Value} {α : Type} {x : Except Fault α} {e : WireError}
    (h : s.encode v = .error e) (root : atRoot x = .error e) : s.Pinpoints v e := by
  obtain ⟨fault, -, rfl⟩ := atRoot_eq_error.1 root
  exact ⟨s, v, .here, h⟩

/-- **From the component that fails to the whole**, if there is a step from the
whole to each of its components (`step`). It is the first of the whole, and so
its text is the first of the path. -/
theorem pinpoints_within {s : Shape} {v : Value} {components : List (Step × Shape)}
    {shapes : List Shape} {vs : List Value} {e : WireError} (hc : components.map Prod.snd = shapes)
    (h : encodeComponents components vs = .error e)
    (each : ∀ c ∈ shapes, ∀ u inner, c.encode u = .error inner → c.Pinpoints u inner)
    (step : ∀ i component u steps path t w, components[i]? = some component → vs[i]? = some u →
      EncodedBefore shapes vs i → LeadsTo component.2 u steps path t w →
      LeadsTo s v (component.1 :: steps) (component.1.text ++ path) t w) :
    s.Pinpoints v e := by
  subst hc
  obtain ⟨i, component, u, inner, at_i, value, failed, rfl, before⟩ := encodeComponents_eq_error h
  have mem := List.mem_map_of_mem (f := Prod.snd) (List.mem_of_getElem? at_i)
  obtain ⟨t, w, way, alone⟩ := each component.2 mem u inner failed
  refine ⟨t, w, ?_, alone⟩
  rw [Located.path_within]
  exact step i component u _ _ t w at_i value before way

theorem pinpoints_record {name : String} {fields : List (String × Shape)} {v : Value}
    {e : WireError} (h : (record name fields).encode v = .error e)
    (each : ∀ f ∈ fields, ∀ u inner, f.2.encode u = .error inner → f.2.Pinpoints u inner) :
    (record name fields).Pinpoints v e := by
  cases v with
  | record vs =>
    have parts := h
    rw [encode, encodeFields_eq] at parts
    rcases bind_eq_error_iff.1 parts with arity | ⟨_, -, failed⟩
    · exact pinpoints_here h arity
    · apply pinpoints_within (map_snd_fieldComponents 0 fields) failed (List.forall_mem_map.2 each)
      intro i component u steps path t w at_i value before way
      obtain ⟨field, shape, rfl⟩ := getElem?_fieldComponents.1 at_i
      exact .field shape value before way
  | _ => exact pinpoints_here h h

theorem pinpoints_tuple {items : List Shape} {v : Value} {e : WireError}
    (h : (tuple items).encode v = .error e)
    (each : ∀ s ∈ items, ∀ u inner, s.encode u = .error inner → s.Pinpoints u inner) :
    (tuple items).Pinpoints v e := by
  cases v with
  | tuple vs =>
    have parts := h
    rw [encode, encodeItems_eq] at parts
    rcases bind_eq_error_iff.1 parts with arity | ⟨_, -, failed⟩
    · exact pinpoints_here h arity
    · apply pinpoints_within (map_snd_itemComponents 0 items) failed each
      intro i component u steps path t w at_i value before way
      obtain ⟨item, shape, rfl⟩ := getElem?_itemComponents.1 at_i
      exact .item shape value before way
  | _ => exact pinpoints_here h h

theorem pinpoints_sequence {s : Shape} {v : Value} {e : WireError}
    (h : s.sequence.encode v = .error e)
    (element : ∀ u inner, s.encode u = .error inner → s.Pinpoints u inner) :
    s.sequence.Pinpoints v e := by
  cases v with
  | sequence vs =>
    have parts := h
    rw [encode, encodeElements_eq] at parts
    rcases bind_eq_error_iff.1 parts with checked | ⟨_, -, counted⟩
    · exact pinpoints_here h checked
    rcases bind_eq_error_iff.1 counted with count | ⟨_, -, failed⟩
    · exact pinpoints_here h count
    rcases bind_eq_error_iff.1 failed with failed | ⟨_, -, done⟩
    · have each : ∀ c ∈ List.replicate vs.length s, ∀ u inner, c.encode u = .error inner →
          c.Pinpoints u inner := by
        intro c hc
        rw [List.eq_of_mem_replicate hc]
        exact element
      apply pinpoints_within (map_snd_elementComponents s 0 vs.length) failed each
      intro i component u steps path t w at_i value before way
      obtain ⟨-, rfl⟩ := getElem?_elementComponents.1 at_i
      exact .element value before way
    · cases done
  | _ => exact pinpoints_here h h

/-- **Every error pinpoints its fault.** In a sequence, the kind of elements and
their number are looked at before any element is. -/
theorem pinpoints_of_encode {s : Shape} {v : Value} {e : WireError} (h : s.encode v = .error e) :
    s.Pinpoints v e := by
  induction s using inductScalar generalizing v e with
  | scalar s scalar =>
    have word := encode_scalar scalar v
    rw [h] at word
    exact pinpoints_here h (map_eq_error_iff.1 word.symm)
  | bytes =>
    cases v with
    | _ => exact pinpoints_here h h
  | record name fields ih => exact pinpoints_record h fun f hf u inner failed => ih f hf failed
  | sequence s ih => exact pinpoints_sequence h fun u inner failed => ih failed
  | tuple items ih => exact pinpoints_tuple h fun s hs u inner failed => ih s hs failed

/-- **Faults are where they are said to be.** The steps of an error lead to a
component that fails by itself, with the same fault and no further step, and the
path of the error is these steps in writing. At each step, the components in
front of the one that is named are encoded (`LeadsTo`). -/
theorem fault_located {s : Shape} {v : Value} {e : WireError} (h : s.encodeBytes v = .error e) :
    ∃ t u, LeadsTo s v e.steps e.path t u ∧ t.encodeBytes u = .error ⟨[], e.fault⟩ := by
  obtain ⟨t, u, way, alone⟩ := pinpoints_of_encode (map_eq_error_iff.1 h)
  exact ⟨t, u, way, map_eq_error_iff.2 alone⟩

/-- A record with a change of its second line that does not fit. -/
theorem fault_located_line :
    let s : Shape := .record "Order" [("flags", .tuple []),
      ("lines", .sequence (.record "Line" [("open", .bool), ("change", .signed .w8)]))]
    let v : Value := .record [.tuple [], .sequence [.record [.bool true, .signed (-128)],
      .record [.bool false, .signed 128]]]
    let fault : Fault := .range (.integer 128) .w8 true
    let steps : List Step := [.field 1 "lines", .element 1, .field 1 "change"]
    s.encodeBytes v = .error ⟨steps, fault⟩ ∧
      ∃ t u, LeadsTo s v steps ".lines[1].change" t u ∧ t.encodeBytes u = .error ⟨[], fault⟩ := by
  intro s v fault steps
  have failed : s.encodeBytes v = .error ⟨steps, fault⟩ := rfl
  have path : Located.path (⟨steps, fault⟩ : WireError) = ".lines[1].change" := by decide
  have way := fault_located failed
  rw [path] at way
  exact ⟨failed, way⟩

end FeltWire.Shape

import FeltWire.Json.Values

/-!
# Paths that are handed down

A conversion puts each step in front of an error while the error is passed
outwards, and writes the path in the end. It can hand the path down as text
instead, one step longer for each component, so that the path of an error is the
one that the part at fault was given. Both give the same errors, below any path
that the whole has.

## Main definitions

* `Shape.ofJsonAt`: the conversion with a path that is handed down
* `Shape.traced`: an error with its path in writing

## Main results

* `traced_within`: a step in front of an error is one at the end of the path
* `ofJsonAt_eq`: handing the path down gives the same errors
-/

namespace FeltWire.Shape

/-! ## The conversion -/

/-- A result whose fault is reported with the `path` of its place. -/
def atPath {α : Type} (path : String) (x : Except JsonFault α) : Except (String × JsonFault) α :=
  x.mapError (path, ·)

/-- The values of the items of an array at a `path`, the first of which has the
given `index`. -/
def elementsOfJsonAt (ofJsonAt : String → Json → Except (String × JsonFault) Value) (path : String)
    (index : Nat) : List Json → Except (String × JsonFault) (List Value)
  | [] => .ok []
  | j :: js => do
    let v ← ofJsonAt (path ++ "[" ++ toString index ++ "]") j
    let vs ← elementsOfJsonAt ofJsonAt path (index + 1) js
    return v :: vs

mutual

/-- **The value that a document at a `path` gives.** A fault is reported with
the path that it was found at, where `ofJson` adds the steps on the way back. -/
def ofJsonAt (path : String) : Shape → Json → Except (String × JsonFault) Value
  | .unsigned w, j => atPath path (j.unsigned w)
  | .signed w, j => atPath path (j.signed w)
  | .bool, j => atPath path j.boolean
  | .felt, j => atPath path j.felt
  | .fixed scale, j => atPath path (j.fixed scale)
  | .bytes, j => atPath path j.byteString
  | .record name fields, j =>
    match j with
    | .object members => (fieldsOfJsonAt path fields members).map .record
    | j => atPath path (j.unexpected (.record name))
  | .sequence s, j =>
    match j with
    | .array js => (elementsOfJsonAt (s.ofJsonAt ·) path 0 js).map .sequence
    | j => atPath path (j.unexpected (.shape (.sequence s)))
  | .tuple items, j =>
    match j with
    | .array js =>
      if js.length = items.length then (itemsOfJsonAt path 0 items js).map .tuple
      else atPath path ((Json.array js).unexpected (.shape (.tuple items)))
    | j => atPath path (j.unexpected (.shape (.tuple items)))

/-- The values of the fields of a record at a `path`. -/
def fieldsOfJsonAt (path : String) :
    List (String × Shape) → Dictionary Json → Except (String × JsonFault) (List Value)
  | [], _ => .ok []
  | (name, s) :: fields, members =>
    match Dictionary.get? name members with
    | none => atPath path (.error (.missingField name))
    | some j => do
      let v ← s.ofJsonAt (path ++ "." ++ name) j
      let vs ← fieldsOfJsonAt path fields members
      return v :: vs

/-- The values of the items of a tuple at a `path`, the first of which has the
given `position`. -/
def itemsOfJsonAt (path : String) (position : Nat) :
    List Shape → List Json → Except (String × JsonFault) (List Value)
  | s :: items, j :: js => do
    let v ← s.ofJsonAt (path ++ "." ++ toString position) j
    let vs ← itemsOfJsonAt path (position + 1) items js
    return v :: vs
  | _, _ => .ok []

end

/-! ## Both ways agree -/

/-- A fault with its path in writing, below the `path` of the whole. -/
def traced (path : String) (e : JsonError) : String × JsonFault := (path ++ Located.path e, e.fault)

theorem traced_here (path : String) (fault : JsonFault) :
    traced path (.here fault) = (path, fault) := by
  rw [traced, Located.path_here, String.append_empty, Located.fault_here]

theorem traced_within (path : String) (step : Step) (e : JsonError) :
    traced path (e.within step) = traced (path ++ step.text) e := by
  rw [traced, traced, Located.path_within, String.append_assoc, Located.fault_within]

theorem mapError_atRoot {α : Type} (path : String) (x : Except JsonFault α) :
    (atRoot x).mapError (traced path) = atPath path x := by
  cases x with
  | ok a => rfl
  | error fault => exact congrArg Except.error (traced_here path fault)

theorem mapError_atStep {α : Type} (path : String) (step : Step) (x : Except JsonError α) :
    (atStep step x).mapError (traced path) = x.mapError (traced (path ++ step.text)) := by
  cases x with
  | ok a => rfl
  | error e => exact congrArg Except.error (traced_within path step e)

/-- Two conversions one after another, the faults of both being reported by
`g`. -/
theorem mapError_bind {ε ε' α β : Type} (g : ε → ε') (x : Except ε α) (f : α → Except ε β) :
    (x >>= f).mapError g = x.mapError g >>= fun a => (f a).mapError g := by
  cases x <;> rfl

theorem mapError_map {ε ε' α β : Type} (g : ε → ε') (x : Except ε α) (f : α → β) :
    (x.map f).mapError g = (x.mapError g).map f := by
  cases x <;> rfl

theorem elementsOfJsonAt_eq {s : Shape}
    (each : ∀ path j, s.ofJsonAt path j = (s.ofJson j).mapError (traced path)) (path : String)
    (index : Nat) (js : List Json) : elementsOfJsonAt (s.ofJsonAt ·) path index js =
      (elementsOfJson s.ofJson index js).mapError (traced path) := by
  induction js generalizing index with
  | nil => rfl
  | cons j js ih =>
    simp only [elementsOfJsonAt, elementsOfJson, mapError_bind, mapError_atStep, each, ih]
    rw [Step.text, String.append_assoc, String.append_assoc]
    rfl

theorem fieldsOfJsonAt_eq {fields : List (String × Shape)}
    (each : ∀ f ∈ fields, ∀ path j, f.2.ofJsonAt path j = (f.2.ofJson j).mapError (traced path))
    (path : String) (position : Nat) (members : Dictionary Json) :
    fieldsOfJsonAt path fields members =
      (fieldsOfJson position fields members).mapError (traced path) := by
  induction fields generalizing position with
  | nil => rfl
  | cons f fields ih =>
    obtain ⟨name, s⟩ := f
    have head := each (name, s) List.mem_cons_self
    have tail := ih fun f hf => each f (List.mem_cons_of_mem _ hf)
    rw [fieldsOfJsonAt, fieldsOfJson]
    cases Dictionary.get? name members with
    | none => exact (mapError_atRoot path _).symm
    | some j =>
      simp only [mapError_bind, mapError_atStep, head, tail (position + 1)]
      rw [Step.text, String.append_assoc]
      rfl

theorem itemsOfJsonAt_eq {items : List Shape}
    (each : ∀ s ∈ items, ∀ path j, s.ofJsonAt path j = (s.ofJson j).mapError (traced path))
    (path : String) (position : Nat) (js : List Json) :
    itemsOfJsonAt path position items js =
      (itemsOfJson position items js).mapError (traced path) := by
  induction items generalizing position js with
  | nil => cases js <;> rfl
  | cons s items ih =>
    have head := each s List.mem_cons_self
    have tail := ih fun t ht => each t (List.mem_cons_of_mem _ ht)
    cases js with
    | nil => rfl
    | cons j js =>
      simp only [itemsOfJsonAt, itemsOfJson, mapError_bind, mapError_atStep, head, tail]
      rw [Step.text, String.append_assoc]
      rfl

/-- **Handing the path down gives the same errors**, below any `path`:
`ofJsonAt` is `ofJson`, its errors `traced`. -/
theorem ofJsonAt_eq (s : Shape) (path : String) (j : Json) :
    s.ofJsonAt path j = (s.ofJson j).mapError (traced path) := by
  induction s using induct generalizing path j with
  | unsigned | signed | bool | felt | fixed | bytes => exact (mapError_atRoot path _).symm
  | record name fields ih =>
    cases j with
    | object members =>
      rw [ofJsonAt, ofJson, mapError_map, fieldsOfJsonAt_eq ih path 0 members]
    | _ => exact (mapError_atRoot path _).symm
  | sequence s ih =>
    cases j with
    | array js => rw [ofJsonAt, ofJson, mapError_map, elementsOfJsonAt_eq ih]
    | _ => exact (mapError_atRoot path _).symm
  | tuple items ih =>
    cases j with
    | array js =>
      rw [ofJsonAt, ofJson]
      split
      · rw [mapError_map, itemsOfJsonAt_eq ih]
      · exact (mapError_atRoot path _).symm
    | _ => exact (mapError_atRoot path _).symm

end FeltWire.Shape

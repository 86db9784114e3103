import FeltWire.Proofs.Occurrence
import FeltWire.Schema.Resolution
import Mathlib.Logic.Relation

/-!
# Unfolding schemas

What a schema means, said without resolving it. A struct refers to the structs
that occur in the types of its fields, and so reaches others; a type unfolds to
the shape in which every reference is replaced by the record of the fields that
it refers to. The unfolding is a relation: a type that leads back to itself has
none.

## Main definitions

* `FieldType.Occurs`: a type occurs in a type
* `Schema.Refers`, `Schema.Reaches`: references between structs
* `Schema.Unfolds`: the shape that a type stands for
* `Schema.Resolvable`: what has to be true of all structs that a struct reaches

## Main results

* `Schema.Unfolds.unique`: a type stands for at most one shape
* `Schema.Resolvable.of_refers`: what a struct refers to needs no more than the
  struct
-/

namespace FeltWire

/-- **A type occurs in a type**: `t` is that type or occurs in the type of its
items. -/
inductive FieldType.Occurs (t : FieldType) : FieldType → Prop
  | here : Occurs t t
  | array {item : FieldType} (inner : Occurs t item) : Occurs t (.array item)
  | span {item : FieldType} (inner : Occurs t item) : Occurs t (.span item)

namespace Schema

/-- The names that stand for primitive types, those that `primitive?` knows. -/
def primitiveNames : List String :=
  ["u8", "u16", "u32", "u64", "u128", "i8", "i16", "i32", "i64", "i128", "felt252", "bool",
    "ByteArray", "F64"]

theorem exists_primitive?_iff {name : String} :
    (∃ d, primitive? name = some d) ↔ name ∈ primitiveNames := by
  unfold primitive?
  split <;> simp_all [primitiveNames]

/-! ## References -/

section
variable (s : Schema)

/-- The schema defines the struct `name` with these `fields`. -/
def Defines (name : String) (fields : List Field) : Prop :=
  Dictionary.get? name s.structs = some fields

/-- The type `t` occurs in one of the fields of the struct `name`. -/
def Mentions (name : String) (t : FieldType) : Prop :=
  ∃ fields, s.Defines name fields ∧ ∃ f ∈ fields, t.Occurs f.type

/-- A struct refers to an `other`, directly or as the items of arrays and
spans. -/
def Refers (name other : String) : Prop := s.Mentions name (.struct other)

/-- **References lead from a struct to another**, or it is that struct: any
number of `Refers` one after another. -/
def Reaches : String → String → Prop := Relation.ReflTransGen s.Refers

/-! ## Unfoldings -/

/-- **The shape that a type stands for.** Arrays and spans are sequences, and a
struct is the `record` of its fields, in the order of their declaration and
under its own name. -/
inductive Unfolds : FieldType → Shape → Prop
  | primitive {name : String} {d : Shape} (known : primitive? name = some d) :
      Unfolds (.primitive name) d
  | array {item : FieldType} {d : Shape} (inner : Unfolds item d) :
      Unfolds (.array item) (.sequence d)
  | span {item : FieldType} {d : Shape} (inner : Unfolds item d) :
      Unfolds (.span item) (.sequence d)
  | struct {name : String} {fields : List Field} (unfold : Field → Shape)
      (defined : s.Defines name fields) (each : ∀ f ∈ fields, Unfolds f.type (unfold f)) :
      Unfolds (.struct name) (.record name (fields.map fun f => (f.name, unfold f)))

/-- **What resolving a struct needs** of all structs that it `Reaches`. -/
structure Resolvable (name : String) : Prop where
  /-- Every struct is defined. -/
  defined : ∀ m, s.Reaches name m → ∃ fields, s.Defines m fields
  /-- No struct leads back to itself. -/
  acyclic : ∀ m, s.Reaches name m → ¬Relation.TransGen s.Refers m m
  /-- No struct has two fields of one name. -/
  distinct : ∀ m fields, s.Reaches name m → s.Defines m fields → (fields.map Field.name).Nodup
  /-- Every primitive type is known. -/
  supported : ∀ m p, s.Reaches name m → s.Mentions m (.primitive p) → p ∈ primitiveNames
  /-- The items of arrays and spans take words, whatever shape they stand
  for. -/
  positive : ∀ m item d, s.Reaches name m → s.Mentions m (.array item) ∨ s.Mentions m (.span item) →
    s.Unfolds item d → d.fixedWords ≠ some 0

end

variable {s : Schema} {name other : String}

/-- **A type stands for at most one shape**, by induction on `Unfolds`. -/
theorem Unfolds.unique {t : FieldType} {d d' : Shape} (h : s.Unfolds t d) (h' : s.Unfolds t d') :
    d = d' := by
  induction h generalizing d' with
  | primitive known =>
    rcases h' with ⟨known'⟩
    exact Option.some.inj (known.symm.trans known')
  | array inner ih =>
    rcases h' with _ | ⟨inner'⟩
    rw [ih inner']
  | span inner ih =>
    rcases h' with _ | _ | ⟨inner'⟩
    rw [ih inner']
  | struct unfold defined each ih =>
    rcases h' with _ | _ | _ | ⟨unfold', defined', each'⟩
    obtain rfl := Option.some.inj (defined.symm.trans defined')
    have same : ∀ f ∈ _, (f.name, unfold f) = (f.name, unfold' f) := fun f hf => by
      rw [ih f hf (each' f hf)]
    rw [List.map_congr_left same]

/-- What a struct refers to needs no more than the struct does, as it `Reaches`
no more. -/
theorem Resolvable.of_refers (h : s.Resolvable name) (refers : s.Refers name other) :
    s.Resolvable other where
  defined m reached := h.defined m (.head refers reached)
  acyclic m reached := h.acyclic m (.head refers reached)
  distinct m fields reached := h.distinct m fields (.head refers reached)
  supported m p reached := h.supported m p (.head refers reached)
  positive m item d reached := h.positive m item d (.head refers reached)

end Schema

end FeltWire

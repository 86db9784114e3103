import FeltWire.Shape
import FeltWire.Value

/-!
# Occurrences

Statements about "every record" of a shape or "every byte string" of a value
speak of what occurs in it, at whatever depth: the shape or the value itself, or
what occurs in one of its components.

## Main definitions

* `Shape.Occurs`, `Value.Occurs`: a shape occurs in a shape, a value in a value
* `Shape.DistinctNames`: no record of the shape has two fields of one name
* `Shape.ElementsTakeWords`: no sequence of the shape has elements that take no
  words
* `Value.TooLong`: a value with a sequence or a byte string whose length cannot
  be written

## Main results

* `Shape.occurs_iff`, `Value.occurs_iff`: what occurs is the whole or occurs in
  a component
* `Value.exists_occurs_iff`, `Value.forall_occurs_iff`: statements about what
  occurs, for a value and its components
* `Value.tooLong_iff`: what makes a value too long
-/

namespace FeltWire

/-! ## Shapes -/

namespace Shape

/-- The shapes of the components, without the names in a `record`. -/
def components : Shape → List Shape
  | .record _ fields => fields.map Prod.snd
  | .sequence s => [s]
  | .tuple items => items
  | _ => []

/-- **A shape occurs in a shape**: `t` is that shape or occurs in one of its
`components`. -/
inductive Occurs (t : Shape) : Shape → Prop
  | here : Occurs t t
  | component {s c : Shape} (mem : c ∈ s.components) (inner : Occurs t c) : Occurs t s

theorem occurs_iff {t s : Shape} : t.Occurs s ↔ t = s ∨ ∃ c ∈ s.components, t.Occurs c := by
  constructor
  · rintro (_ | ⟨mem, inner⟩)
    · exact .inl rfl
    · exact .inr ⟨_, mem, inner⟩
  · rintro (rfl | ⟨c, mem, inner⟩)
    · exact .here
    · exact .component mem inner

/-- In every `record` that occurs in `s`, each name is that of one field. -/
def DistinctNames (s : Shape) : Prop :=
  ∀ name fields, (record name fields).Occurs s → (fields.map Prod.fst).Nodup

/-- In every `sequence` that occurs in `s`, the elements take words. -/
def ElementsTakeWords (s : Shape) : Prop :=
  ∀ element, (sequence element).Occurs s → element.fixedWords ≠ some 0

variable {s c : Shape}

theorem DistinctNames.component (h : s.DistinctNames) (mem : c ∈ s.components) :
    c.DistinctNames :=
  fun name fields inner => h name fields (.component mem inner)

theorem ElementsTakeWords.component (h : s.ElementsTakeWords) (mem : c ∈ s.components) :
    c.ElementsTakeWords :=
  fun element inner => h element (.component mem inner)

end Shape

/-! ## Values -/

namespace Value

/-- The components of a value, none for a scalar or a byte string. -/
def components : Value → List Value
  | .record vs | .sequence vs | .tuple vs => vs
  | _ => []

/-- **A value occurs in a value**: `u` is that value or occurs in one of its
`components`. -/
inductive Occurs (u : Value) : Value → Prop
  | here : Occurs u u
  | component {v c : Value} (mem : c ∈ v.components) (inner : Occurs u c) : Occurs u v

theorem occurs_iff {u v : Value} : u.Occurs v ↔ u = v ∨ ∃ c ∈ v.components, u.Occurs c := by
  constructor
  · rintro (_ | ⟨mem, inner⟩)
    · exact .inl rfl
    · exact .inr ⟨_, mem, inner⟩
  · rintro (rfl | ⟨c, mem, inner⟩)
    · exact .here
    · exact .component mem inner

variable {p : Value → Prop} {v : Value}

/-- Something of which `p` holds occurs in a value if the value is such or it
occurs in a component. -/
theorem exists_occurs_iff : (∃ u : Value, u.Occurs v ∧ p u) ↔
    p v ∨ ∃ c ∈ v.components, ∃ u : Value, u.Occurs c ∧ p u := by
  simp only [occurs_iff (v := v)]
  constructor
  · rintro ⟨u, rfl | ⟨c, mem, inner⟩, hu⟩
    · exact .inl hu
    · exact .inr ⟨c, mem, u, inner, hu⟩
  · rintro (hv | ⟨c, mem, u, inner, hu⟩)
    · exact ⟨v, .inl rfl, hv⟩
    · exact ⟨u, .inr ⟨c, mem, inner⟩, hu⟩

/-- Whatever occurs in a value satisfies `p` if the value does and so does what
occurs in its components. -/
theorem forall_occurs_iff : (∀ u : Value, u.Occurs v → p u) ↔
    p v ∧ ∀ c ∈ v.components, ∀ u : Value, u.Occurs c → p u := by
  simp only [occurs_iff (v := v)]
  constructor
  · exact fun all => ⟨all v (.inl rfl), fun c mem u inner => all u (.inr ⟨c, mem, inner⟩)⟩
  · rintro ⟨hv, each⟩ u (rfl | ⟨c, mem, inner⟩)
    · exact hv
    · exact each c mem u inner

/-- The value itself has more elements than can be counted in 32 bits or, as a
byte string, more chunks. -/
def Exceeds : Value → Prop
  | .sequence items => 2 ^ 32 ≤ items.length
  | .bytes data => 31 * 2 ^ 32 ≤ data.length
  | _ => False

/-- **A value is too long** if a sequence or a byte string in it `Exceeds` its
count. -/
def TooLong (v : Value) : Prop := ∃ u : Value, u.Occurs v ∧ u.Exceeds

theorem tooLong_iff {v : Value} : v.TooLong ↔ v.Exceeds ∨ ∃ c ∈ v.components, c.TooLong :=
  exists_occurs_iff

theorem not_tooLong_of_mem (short : ¬v.TooLong) : ∀ c ∈ v.components, ¬c.TooLong :=
  fun c mem long => short (tooLong_iff.2 (.inr ⟨c, mem, long⟩))

end Value

end FeltWire
